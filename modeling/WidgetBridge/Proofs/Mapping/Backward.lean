import WidgetBridge.Mapping.Entry
import WidgetBridge.Proofs.Mapping.Numerals

/-!
# Carrying props back

A transform never fails on the way back (`exists_apply_backward`): the numbers that it reads are
those that its patterns have taken, and every number that `Pattern.number` takes can be read.
-/

namespace WidgetBridge.Mapping

open WidgetBridge.Text WidgetBridge.Number Pattern

/-! ## Groups that hold numbers -/

/-- The groups of a pattern. -/
def indices : Pattern → List Nat
  | .group i p => i :: indices p
  | .seq p q | .alt p q => indices p ++ indices q
  | .rep _ _ _ p => indices p
  | _ => []

theorem mem_indices_of_spans {p : Pattern} {cs : List Char} {gs : Groups} (h : Spans p cs gs) :
    ∀ g ∈ gs, g.1 ∈ indices p := by
  induction p generalizing cs gs with
  | seq p q ihp ihq =>
    obtain ⟨ds, es, hs, is, rfl, rfl, hp, hq⟩ := h
    intro g hg
    rcases List.mem_append.1 hg with hg | hg
    · exact List.mem_append_right _ (ihq hq g hg)
    · exact List.mem_append_left _ (ihp hp g hg)
  | alt p q ihp ihq =>
    intro g hg
    rcases h with h | h
    · exact List.mem_append_left _ (ihp h g hg)
    · exact List.mem_append_right _ (ihq h g hg)
  | rep greedy least most p ih =>
    obtain ⟨n, -, -, hrounds⟩ := h
    induction n generalizing cs gs with
    | zero =>
      obtain ⟨-, rfl⟩ := hrounds
      simp
    | succ n ihn =>
      obtain ⟨ds, es, hs, is, rfl, rfl, hp, hrest⟩ := hrounds
      intro g hg
      rcases List.mem_append.1 hg with hg | hg
      · exact ihn hrest g hg
      · exact ih hp g hg
  | group i p ih =>
    obtain ⟨hs, rfl, hp⟩ := h
    exact List.forall_mem_cons.2
      ⟨List.mem_cons_self, fun g hg => List.mem_cons_of_mem _ (ih hp g hg)⟩
  | char accepts =>
    obtain ⟨c, -, -, rfl⟩ := h
    simp
  | empty | textStart | textEnd | lineEnd | wordBoundary | ahead | notBehind =>
    obtain ⟨-, rfl⟩ := h
    simp

theorem lookup_eq_none_of_spans {p : Pattern} {cs : List Char} {gs : Groups}
    (h : Spans p cs gs) {i : Nat} (hi : i ∉ indices p) : gs.lookup i = none := by
  rw [List.lookup_eq_none_iff]
  rintro g hg
  rw [bne_iff_ne]
  rintro rfl
  exact hi (mem_indices_of_spans h g hg)

/-- A pattern whose matches keep a number in a group. -/
def KeepsNumber (i : Nat) (p : Pattern) : Prop :=
  ∀ cs gs, Spans p cs gs → ∃ ds, gs.lookup i = some ds ∧ IsNumeral ds

theorem keepsNumber_group (i : Nat) : KeepsNumber i (group i number) := by
  rintro cs _ ⟨hs, rfl, h⟩
  exact ⟨cs, by simp, (isNumeral_of_spans h).1⟩

theorem KeepsNumber.right {i : Nat} {q : Pattern} (h : KeepsNumber i q) (p : Pattern) :
    KeepsNumber i (p ++ q) := by
  rintro cs gs hspans
  obtain ⟨as, bs, hs, is, rfl, rfl, -, hq⟩ := spans_append.1 hspans
  obtain ⟨ds, hlookup, hread⟩ := h bs is hq
  exact ⟨ds, by rw [List.lookup_append, hlookup]; rfl, hread⟩

theorem KeepsNumber.left {i : Nat} {p : Pattern} (h : KeepsNumber i p) {q : Pattern}
    (hq : i ∉ indices q) : KeepsNumber i (p ++ q) := by
  rintro cs gs hspans
  obtain ⟨as, bs, hs, is, rfl, rfl, hp, hrest⟩ := spans_append.1 hspans
  obtain ⟨ds, hlookup, hread⟩ := h as hs hp
  exact ⟨ds, by rw [List.lookup_append, lookup_eq_none_of_spans hrest hq, hlookup]; rfl, hread⟩

theorem keepsNumber_spaced (i : Nat) : KeepsNumber i (Form.spaced i) := by
  apply KeepsNumber.left
  · exact (keepsNumber_group i).right blanks
  · exact List.not_mem_nil

theorem KeepsNumber.isNumeral {i : Nat} {p : Pattern} (h : KeepsNumber i p) {m : Match}
    (hm : Spans p m.text m.groups) : IsNumeral (m.get i).toList := by
  obtain ⟨ds, hlookup, hnum⟩ := h _ _ hm
  unfold Match.get Match.group?
  rw [hlookup]
  simpa using hnum

theorem KeepsNumber.readable {i : Nat} {p : Pattern} (h : KeepsNumber i p) {m : Match}
    (hm : Spans p m.text m.groups) : Parses (m.get i) := by
  have hread := (h.isNumeral hm).readable
  rwa [String.ofList_toList] at hread

theorem keepsNumber_insetsAll : KeepsNumber 1 Form.insetsAll :=
  (((keepsNumber_spaced 1).right _).left (by decide)).left (by decide)

theorem keepsNumber_insetsSides {i : Nat} (hi : i ∈ [1, 2, 3, 4]) :
    KeepsNumber i Form.insetsSides := by
  simp only [List.mem_cons, List.not_mem_nil, or_false] at hi
  unfold Form.insetsSides
  -- the group is looked for from the end of the pattern
  rcases hi with rfl | rfl | rfl | rfl
  all_goals
    repeat'
      first
      | exact keepsNumber_spaced _
      | apply KeepsNumber.left _ (by decide)
      | apply KeepsNumber.right

theorem keepsNumber_namedNumber : KeepsNumber 2 Form.namedNumber := (keepsNumber_group 2).right _

theorem readable_radius {s : String} {m : Match} (h : Form.radius.matchStart? s = some m) :
    Parses ((m.group? 1).getD (m.get 2)) := by
  have hcircular : KeepsNumber 1 (lit "circular(" ++ Form.spaced 1 ++ lit ")") :=
    ((keepsNumber_spaced 1).right _).left (by decide)
  have hall : KeepsNumber 2 (lit "all(" ++ blanks ++ lit "Radius.circular(" ++ Form.spaced 2 ++
      lit ")" ++ blanks ++ lit ")") :=
    ((((keepsNumber_spaced 2).right _).left (by decide)).left (by decide)).left (by decide)
  obtain ⟨as, bs, hs, is, -, hgroups, hspans, -, rfl⟩ := spans_append.1 (spans_of_matchStart? h)
  obtain ⟨cs, ds, js, ks, rfl, rfl, hhead, hform⟩ := spans_append.1 hspans
  have hjs (i : Nat) : js.lookup i = none :=
    lookup_eq_none_of_spans hhead (List.not_mem_nil (a := i))
  rw [List.nil_append] at hgroups
  unfold Match.get Match.group?
  rw [hgroups, List.lookup_append, List.lookup_append, hjs, hjs, Option.or_none, Option.or_none]
  rcases hform with hform | hform
  · obtain ⟨es, hlookup, hread⟩ := hcircular _ _ hform
    rw [hlookup]
    exact hread.readable
  · obtain ⟨es, hlookup, hread⟩ := hall _ _ hform
    rw [lookup_eq_none_of_spans hform (by decide), hlookup]
    exact hread.readable

/-! ## Transforms -/

theorem exists_namedNumbers (args : String) : ∃ named, namedNumbers args = .ok named := by
  have key (ms : List Match) (hms : ∀ m ∈ ms, Parses (m.get 2)) (acc : Assoc Value) :
      ∃ named, ms.foldlM (fun (acc : Assoc Value) m => do
        return acc.put (m.get 1) (← parseNumber (m.get 2))) acc =
          (.ok named : Attempt (Assoc Value)) := by
    induction ms generalizing acc with
    | nil => exact ⟨acc, rfl⟩
    | cons m ms ih =>
      obtain ⟨⟨v, hv⟩, hms⟩ := List.forall_mem_cons.1 hms
      rw [List.foldlM_cons, hv]
      exact ih hms _
  exact key _ (fun m hm => keepsNumber_namedNumber.readable (spans_of_mem_allFrom hm)) []

theorem exists_insetsBackward (source : String) : ∃ w, insetsBackward source = .ok w := by
  unfold insetsBackward
  dsimp only
  split_ifs
  · exact ⟨_, rfl⟩
  · split
    · next m hm =>
      obtain ⟨v, hv⟩ := keepsNumber_insetsAll.readable (spans_of_matchStart? hm)
      rw [hv]
      exact ⟨_, rfl⟩
    · split
      · next m hm =>
        have hread {i : Nat} (hi : i ∈ [1, 2, 3, 4]) : Parses (m.get i) :=
          (keepsNumber_insetsSides hi).readable (spans_of_matchStart? hm)
        obtain ⟨left, hleft⟩ := hread (i := 1) (by decide)
        obtain ⟨top, htop⟩ := hread (i := 2) (by decide)
        obtain ⟨right, hright⟩ := hread (i := 3) (by decide)
        obtain ⟨bottom, hbottom⟩ := hread (i := 4) (by decide)
        rw [hleft, htop, hright, hbottom]
        exact ⟨_, rfl⟩
      · split
        · next m hm =>
          obtain ⟨named, hnamed⟩ := exists_namedNumbers (m.get 1)
          rw [hnamed]
          exact ⟨_, rfl⟩
        · exact ⟨_, rfl⟩

/-- A transform never fails on the way back. -/
theorem exists_apply_backward (t : Transform) (values : Assoc String) (v : PropValue) :
    ∃ w, t.apply .backward values v = .ok w := by
  unfold Transform.apply
  cases t with
  | identity => exact ⟨v, rfl⟩
  | event => exact ⟨v, rfl⟩
  | color =>
    cases v with
    | lit kind v => exact ⟨_, rfl⟩
    | expr s =>
      dsimp only [applyColor]
      split
      · exact ⟨_, rfl⟩
      · exact ⟨_, rfl⟩
  | edgeInsets =>
    cases v with
    | lit kind v => exact ⟨_, rfl⟩
    | expr s => exact exists_insetsBackward s
  | borderRadius =>
    cases v with
    | lit kind v => exact ⟨_, rfl⟩
    | expr s =>
      dsimp only [applyRadius]
      split
      · next m hm =>
        obtain ⟨v, hv⟩ := readable_radius hm
        rw [hv]
        exact ⟨_, rfl⟩
      · exact ⟨_, rfl⟩
  | enum =>
    cases v with
    | lit kind v => exact ⟨_, rfl⟩
    | expr s =>
      dsimp only [applyKeyword]
      split
      · exact ⟨_, rfl⟩
      · exact ⟨_, rfl⟩
  | imageSource =>
    cases v with
    | lit kind v => exact ⟨_, rfl⟩
    | expr s => exact ⟨_, rfl⟩

/-- A prop is always carried back. -/
theorem exists_carryProp_backward (entry : Entry) (name : String) (v : PropValue) (path : String) :
    ∃ r, entry.carryProp name v .backward path = .ok r := by
  unfold Entry.carryProp
  dsimp only
  split
  · exact ⟨_, rfl⟩
  · next rule _ =>
    obtain ⟨w, hw⟩ := exists_apply_backward rule.transform rule.values v
    rw [hw]
    exact ⟨_, rfl⟩

end WidgetBridge.Mapping
