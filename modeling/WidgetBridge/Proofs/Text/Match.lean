import WidgetBridge.Proofs.Text.Layout
import WidgetBridge.Text.Pattern

/-!
# What a match tells about its text

`Spans p cs gs` says that the pattern `p` can take the text `cs` and keep the groups `gs`, the
latest first.  It looks at the taken text only, not at what stands around it.  Every match takes
such a text (`run_spans`), so that the text of a match and of its groups can be read off the
pattern: groups are parts of the text (`Spans.infix_of_mem`), and a literal stands for itself
(`Spans.lit`).
-/

namespace WidgetBridge.Text.Pattern

/-- Groups with their texts. -/
abbrev Groups := List (Nat × List Char)

/-- A number of texts one after another. -/
def Repeats (round : List Char → Groups → Prop) : Nat → List Char → Groups → Prop
  | 0, cs, gs => cs = [] ∧ gs = []
  | n + 1, cs, gs =>
    ∃ ds es hs is, cs = ds ++ es ∧ gs = is ++ hs ∧ round ds hs ∧ Repeats round n es is

/-- The texts that a pattern can take, with the groups that it keeps. -/
def Spans : Pattern → List Char → Groups → Prop
  | .empty, cs, gs => cs = [] ∧ gs = []
  | .char accepts, cs, gs => ∃ c, accepts c = true ∧ cs = [c] ∧ gs = []
  | .seq p q, cs, gs =>
    ∃ ds es hs is, cs = ds ++ es ∧ gs = is ++ hs ∧ Spans p ds hs ∧ Spans q es is
  | .alt p q, cs, gs => Spans p cs gs ∨ Spans q cs gs
  | .rep _ least most p, cs, gs =>
    ∃ n, least ≤ n ∧ (∀ m ∈ most, n ≤ max least m) ∧ Repeats (Spans p) n cs gs
  | .group i p, cs, gs => ∃ hs, gs = (i, cs) :: hs ∧ Spans p cs hs
  | .textStart, cs, gs | .textEnd, cs, gs | .lineEnd, cs, gs | .wordBoundary, cs, gs
  | .ahead _ _, cs, gs | .notBehind _, cs, gs => cs = [] ∧ gs = []

/-- The place behind a text that was taken. -/
def Cursor.after (c : Cursor) (cs rest : List Char) (gs : Groups) : Cursor :=
  ⟨cs.reverse ++ c.before, rest, c.position + cs.length, gs ++ c.groups⟩

/-- A step that goes on behind some text in front of it. -/
def Goes (round : List Char → Groups → Prop) (c : Cursor) (k : Next) (r : Cursor) : Prop :=
  ∃ cs gs rest, c.rest = cs ++ rest ∧ round cs gs ∧ k (c.after cs rest gs) = some r

theorem Cursor.after_nil (c : Cursor) : c.after [] c.rest [] = c := by
  simp [Cursor.after]

theorem Cursor.after_after (c : Cursor) (cs ds rest rest' : List Char) (gs hs : Groups) :
    (c.after cs rest gs).after ds rest' hs = c.after (cs ++ ds) rest' (hs ++ gs) := by
  simp [Cursor.after, Nat.add_assoc]

theorem goes_nil {round : List Char → Groups → Prop} {c r : Cursor} {k : Next}
    (hround : round [] []) (h : k c = some r) : Goes round c k r :=
  ⟨[], [], c.rest, rfl, hround, by rwa [Cursor.after_nil]⟩

/-- Two steps one after the other. -/
theorem Goes.seq {first second whole : List Char → Groups → Prop} {c r : Cursor} {k k' : Next}
    (h : Goes first c k' r) (hnext : ∀ c', k' c' = some r → Goes second c' k r)
    (hwhole : ∀ cs ds gs hs, first cs gs → second ds hs → whole (cs ++ ds) (hs ++ gs)) :
    Goes whole c k r := by
  obtain ⟨cs, gs, rest, hrest, hfirst, hk'⟩ := h
  obtain ⟨ds, hs, rest', hrest', hsecond, hk⟩ := hnext _ hk'
  refine ⟨cs ++ ds, hs ++ gs, rest', ?_, hwhole cs ds gs hs hfirst hsecond, ?_⟩
  · rw [hrest, show rest = ds ++ rest' from hrest', List.append_assoc]
  · rwa [Cursor.after_after] at hk

theorem Goes.imp {round round' : List Char → Groups → Prop} {c r : Cursor} {k : Next}
    (h : Goes round c k r) (himp : ∀ cs gs, round cs gs → round' cs gs) : Goes round' c k r := by
  obtain ⟨cs, gs, rest, hrest, hround, hk⟩ := h
  exact ⟨cs, gs, rest, hrest, himp cs gs hround, hk⟩

theorem Repeats.append {round : List Char → Groups → Prop} {m n : Nat} {cs ds : List Char}
    {gs hs : Groups} (hm : Repeats round m cs gs) (hn : Repeats round n ds hs) :
    Repeats round (m + n) (cs ++ ds) (hs ++ gs) := by
  induction m generalizing cs gs with
  | zero =>
    obtain ⟨rfl, rfl⟩ := hm
    simpa using hn
  | succ m ih =>
    obtain ⟨as, bs, is, js, rfl, rfl, hround, hrest⟩ := hm
    rw [Nat.succ_add]
    exact ⟨as, bs ++ ds, is, hs ++ js, by simp, by simp, hround, ih hrest⟩

section Rounds

variable {step : Cursor → Next → Option Cursor} {round : List Char → Groups → Prop}
  (hstep : ∀ c k r, step c k = some r → Goes round c k r)

include hstep

theorem rounds_goes {n : Nat} {c r : Cursor} {k : Next} (h : rounds step n c k = some r) :
    Goes (Repeats round n) c k r := by
  induction n generalizing c with
  | zero => exact goes_nil ⟨rfl, rfl⟩ h
  | succ n ih =>
    refine (hstep _ _ _ h).seq (fun c' => ih) fun cs ds gs hs hround hrounds => ?_
    exact ⟨cs, ds, gs, hs, rfl, rfl, hround, hrounds⟩

theorem furtherRounds_goes {greedy : Bool} {n : Nat} {c r : Cursor} {k : Next}
    (h : furtherRounds greedy step n c k = some r) :
    Goes (fun cs gs => ∃ m ≤ n, Repeats round m cs gs) c k r := by
  induction n generalizing c with
  | zero => exact goes_nil ⟨0, Nat.le_refl 0, rfl, rfl⟩ h
  | succ n ih =>
    have hnone (hk : k c = some r) :
        Goes (fun cs gs => ∃ m ≤ n + 1, Repeats round m cs gs) c k r :=
      goes_nil ⟨0, Nat.zero_le _, rfl, rfl⟩ hk
    have hagain (hr : (step c fun c' => if c'.position == c.position then none
        else furtherRounds greedy step n c' k) = some r) :
        Goes (fun cs gs => ∃ m ≤ n + 1, Repeats round m cs gs) c k r := by
      have hnext (c' : Cursor) (hk : (if c'.position == c.position then none
          else furtherRounds greedy step n c' k) = some r) :
          Goes (fun cs gs => ∃ m ≤ n, Repeats round m cs gs) c' k r := by
        split_ifs at hk
        exact ih hk
      refine (hstep _ _ _ hr).seq hnext fun cs ds gs hs hround hrounds => ?_
      obtain ⟨m, hm, hrounds⟩ := hrounds
      exact ⟨m + 1, by omega, cs, ds, gs, hs, rfl, rfl, hround, hrounds⟩
    unfold furtherRounds at h
    dsimp only at h
    split_ifs at h
    · split at h
      · next r' hr =>
        cases h
        exact hagain hr
      · exact hnone h
    · split at h
      · next r' hr =>
        cases h
        exact hnone hr
      · exact hagain h

end Rounds

/-- Every way in which a pattern matches takes a text of the pattern. -/
theorem run_spans {p : Pattern} {c r : Cursor} {k : Next} (h : run p c k = some r) :
    Goes (Spans p) c k r := by
  induction p generalizing c k r with
  | empty => exact goes_nil ⟨rfl, rfl⟩ h
  | char accepts =>
    rw [run, Option.bind_eq_some_iff] at h
    obtain ⟨c', hc', hk⟩ := h
    unfold Cursor.step? at hc'
    split at hc'
    · next x xs hrest =>
      split_ifs at hc' with hx
      cases hc'
      exact ⟨[x], [], xs, hrest, ⟨x, hx, rfl, rfl⟩, hk⟩
    · cases hc'
  | seq p q ihp ihq =>
    rw [run] at h
    exact (ihp h).seq (fun _ => ihq) fun cs ds gs hs hp hq => ⟨cs, ds, gs, hs, rfl, rfl, hp, hq⟩
  | alt p q ihp ihq =>
    rw [run] at h
    split at h
    · next r' hr =>
      cases h
      exact (ihp hr).imp fun _ _ => .inl
    · exact (ihq h).imp fun _ _ => .inr
  | rep greedy least most p ih =>
    rw [run] at h
    have hstep (c : Cursor) (k : Next) (r : Cursor) (hr : run p c k = some r) : Goes
        (Spans p) c k r :=
      ih hr
    obtain ⟨cs, gs, rest, hrest, hfirst, hk'⟩ := rounds_goes hstep h
    obtain ⟨ds, hs, rest', hrest', ⟨m, hm, hmore⟩, hk⟩ := furtherRounds_goes hstep hk'
    refine ⟨cs ++ ds, hs ++ gs, rest', ?_, ⟨least + m, by omega, ?_, hfirst.append hmore⟩, ?_⟩
    · rw [hrest, show rest = ds ++ rest' from hrest', List.append_assoc]
    · rintro n rfl
      simp only [Option.map_some, Option.getD_some] at hm
      omega
    · rwa [Cursor.after_after] at hk
  | group i p ih =>
    rw [run] at h
    obtain ⟨cs, gs, rest, hrest, hp, hk⟩ := ih h
    refine ⟨cs, (i, cs) :: gs, rest, hrest, ⟨gs, rfl, hp⟩, ?_⟩
    simpa [Cursor.after, hrest] using hk
  | textStart =>
    rw [run] at h
    split_ifs at h
    exact goes_nil ⟨rfl, rfl⟩ h
  | textEnd =>
    rw [run] at h
    split at h
    · exact goes_nil ⟨rfl, rfl⟩ h
    · exact goes_nil ⟨rfl, rfl⟩ h
    · cases h
  | lineEnd =>
    rw [run] at h
    split at h
    · exact goes_nil ⟨rfl, rfl⟩ h
    · exact goes_nil ⟨rfl, rfl⟩ h
    · cases h
  | wordBoundary =>
    rw [run] at h
    split_ifs at h
    exact goes_nil ⟨rfl, rfl⟩ h
  | ahead wanted p ih =>
    rw [run] at h
    split_ifs at h
    exact goes_nil ⟨rfl, rfl⟩ h
  | notBehind refused =>
    rw [run] at h
    split at h
    · split_ifs at h
      exact goes_nil ⟨rfl, rfl⟩ h
    · exact goes_nil ⟨rfl, rfl⟩ h

/-! ## Matches -/

theorem matchAt?_spans {p : Pattern} {before rest : List Char} {position : Nat} {m : Match}
    (h : matchAt? p before position rest = some m) :
    rest = m.text ++ m.after ∧ Spans p m.text m.groups := by
  unfold matchAt? at h
  rw [Option.map_eq_some_iff] at h
  obtain ⟨c, hrun, rfl⟩ := h
  obtain ⟨cs, gs, rest', hrest, hspans, hc⟩ := run_spans hrun
  cases hc
  have htext : rest.take (position + cs.length - position) = cs := by
    rw [show rest = cs ++ rest' from hrest, Nat.add_sub_cancel_left, List.take_left]
  simp only [Cursor.after, htext, List.append_nil]
  exact ⟨hrest, hspans⟩

theorem searchFrom?_spans {p : Pattern} {rest before : List Char} {position : Nat} {m : Match}
    (h : searchFrom? p before position rest = some m) :
    m.text <:+: rest ∧ Spans p m.text m.groups := by
  induction rest generalizing before position with
  | nil =>
    obtain ⟨hrest, hspans⟩ := matchAt?_spans h
    exact ⟨hrest ▸ List.infix_append' [] m.text m.after, hspans⟩
  | cons c cs ih =>
    unfold searchFrom? at h
    split at h
    · next m' hm =>
      cases h
      obtain ⟨hrest, hspans⟩ := matchAt?_spans hm
      exact ⟨hrest ▸ List.infix_append' [] m.text m.after, hspans⟩
    · obtain ⟨hpart, hspans⟩ := ih h
      exact ⟨hpart.trans (List.suffix_cons c cs).isInfix, hspans⟩

theorem spans_of_mem_allFrom {p : Pattern} {fuel : Nat} {before rest : List Char} {position : Nat}
    {m : Match} (h : m ∈ allFrom p fuel before position rest) : Spans p m.text m.groups := by
  induction fuel generalizing before position rest with
  | zero => cases h
  | succ fuel ih =>
    unfold allFrom at h
    split at h
    · cases h
    · next m' hm =>
      have hspans := (searchFrom?_spans hm).2
      split_ifs at h
      · split at h
        · cases List.mem_singleton.1 h
          exact hspans
        · rcases List.mem_cons.1 h with rfl | h
          · exact hspans
          · exact ih h
      · rcases List.mem_cons.1 h with rfl | h
        · exact hspans
        · exact ih h

theorem spans_of_matchStart? {p : Pattern} {s : String} {m : Match} (h : matchStart? p s = some m) :
    Spans p m.text m.groups :=
  (matchAt?_spans h).2

/-- A match up to the end of a text leaves a line feed at most. -/
theorem matchStart?_textEnd {p : Pattern} {s : String} {m : Match}
    (h : matchStart? (p ++ textEnd) s = some m) :
    ∃ rest, s.toList = m.text ++ rest ∧ (rest = [] ∨ rest = ['\n']) ∧ Spans p m.text m.groups := by
  unfold matchStart? matchAt? at h
  rw [Option.map_eq_some_iff] at h
  obtain ⟨c, hrun, rfl⟩ := h
  obtain ⟨cs, gs, rest, hrest, hspans, hend⟩ := run_spans (p := p) hrun
  have hlast : (rest = [] ∨ rest = ['\n']) ∧ Cursor.after ⟨[], s.toList, 0, []⟩ cs rest gs = c := by
    have hend : run textEnd (Cursor.after ⟨[], s.toList, 0, []⟩ cs rest gs) some = some c := hend
    rw [run] at hend
    split at hend
    · next hnil => exact ⟨.inl hnil, Option.some.inj hend⟩
    · next hline => exact ⟨.inr hline, Option.some.inj hend⟩
    · cases hend
  obtain ⟨hlast, rfl⟩ := hlast
  have htext : s.toList.take (cs.length - 0) = cs := by
    rw [show s.toList = cs ++ rest from hrest, Nat.sub_zero, List.take_left]
  simp only [Cursor.after, Nat.zero_add, htext, List.append_nil]
  exact ⟨rest, hrest, hlast, hspans⟩

/-- Behind a text that ends with no line feed nothing is left. -/
theorem spans_of_textEnd {p : Pattern} {s : String} {m : Match}
    (h : matchStart? (p ++ textEnd) s = some m) (hlast : '\n' ∉ s.toList.getLast?) :
    Spans p s.toList m.groups := by
  obtain ⟨rest, hs, hrest, hspans⟩ := matchStart?_textEnd h
  rcases hrest with rfl | rfl
  · rwa [hs, List.append_nil]
  · rw [hs, List.getLast?_concat] at hlast
    exact absurd rfl hlast

theorem spans_of_matchesWhole {p : Pattern} {s : String} (h : matchesWhole p s = true) :
    ∃ gs, Spans p s.toList gs := by
  unfold matchesWhole matchWhole? at h
  rw [Option.isSome_map, Option.isSome_iff_exists] at h
  obtain ⟨c, hrun⟩ := h
  obtain ⟨cs, gs, rest, hrest, hspans, hc⟩ := run_spans hrun
  dsimp only [Cursor.after] at hc
  split_ifs at hc with hend
  have hnil : rest = [] := List.isEmpty_iff.1 hend
  rw [show s.toList = cs ++ rest from hrest, hnil, List.append_nil]
  exact ⟨gs, hspans⟩

/-! ## Groups -/

theorem Repeats.infix_of_mem {round : List Char → Groups → Prop}
    (hround : ∀ cs gs, round cs gs → ∀ g ∈ gs, g.2 <:+: cs) {n : Nat} {cs : List Char} {gs : Groups}
    (h : Repeats round n cs gs) : ∀ g ∈ gs, g.2 <:+: cs := by
  induction n generalizing cs gs with
  | zero =>
    obtain ⟨-, rfl⟩ := h
    simp
  | succ n ih =>
    obtain ⟨ds, es, hs, is, rfl, rfl, hfirst, hrest⟩ := h
    intro g hg
    rcases List.mem_append.1 hg with hg | hg
    · exact (ih hrest g hg).trans (List.suffix_append ds es).isInfix
    · exact (hround ds hs hfirst g hg).trans (List.prefix_append ds es).isInfix

/-- The groups of a match are parts of its text. -/
theorem Spans.infix_of_mem {p : Pattern} {cs : List Char} {gs : Groups} (h : Spans p cs gs) :
    ∀ g ∈ gs, g.2 <:+: cs := by
  induction p generalizing cs gs with
  | seq p q ihp ihq =>
    obtain ⟨ds, es, hs, is, rfl, rfl, hp, hq⟩ := h
    intro g hg
    rcases List.mem_append.1 hg with hg | hg
    · exact (ihq hq g hg).trans (List.suffix_append ds es).isInfix
    · exact (ihp hp g hg).trans (List.prefix_append ds es).isInfix
  | alt p q ihp ihq =>
    rcases h with h | h
    · exact ihp h
    · exact ihq h
  | rep greedy least most p ih =>
    obtain ⟨n, -, -, h⟩ := h
    exact h.infix_of_mem fun cs gs => ih
  | group i p ih =>
    obtain ⟨hs, rfl, hp⟩ := h
    intro g hg
    rcases List.mem_cons.1 hg with rfl | hg
    · exact List.infix_rfl
    · exact ih hp g hg
  | char accepts =>
    obtain ⟨c, -, -, rfl⟩ := h
    simp
  | empty | textStart | textEnd | lineEnd | wordBoundary | ahead | notBehind =>
    obtain ⟨-, rfl⟩ := h
    simp

theorem infix_get {p : Pattern} {s : String} {m : Match} (h : search? p s = some m) (i : Nat) :
    (m.get i).toList <:+: s.toList := by
  obtain ⟨hpart, hspans⟩ := searchFrom?_spans h
  unfold Match.get Match.group?
  cases hl : m.groups.lookup i with
  | none => exact List.nil_infix
  | some cs =>
    have hmem : (i, cs) ∈ m.groups := by
      obtain ⟨as, bs, hgroups, -⟩ := List.lookup_eq_some_iff.1 hl
      simp [hgroups]
    simpa using (hspans.infix_of_mem _ hmem).trans hpart

/-! ## Texts of patterns -/

theorem spans_append {p q : Pattern} {cs : List Char} {gs : Groups} :
    Spans (p ++ q) cs gs ↔
      ∃ ds es hs is, cs = ds ++ es ∧ gs = is ++ hs ∧ Spans p ds hs ∧ Spans q es is :=
  Iff.rfl

theorem spans_litChar {c : Char} {p : Pattern} {cs : List Char} {gs : Groups}
    (h : Spans (litChar c p) cs gs) : ∃ ds, cs = c :: ds ∧ Spans p ds gs := by
  unfold litChar at h
  split at h
  · obtain ⟨d, hd, rfl, rfl⟩ := h
    rw [beq_iff_eq] at hd
    subst hd
    exact ⟨[], rfl, rfl, rfl⟩
  · obtain ⟨ds, es, hs, is, rfl, rfl, ⟨d, hd, rfl, rfl⟩, hp⟩ := h
    rw [beq_iff_eq] at hd
    subst hd
    exact ⟨es, rfl, by simpa using hp⟩

/-- A literal takes itself. -/
theorem spans_lit {s : String} {cs : List Char} {gs : Groups} (h : Spans (lit s) cs gs) :
    cs = s.toList ∧ gs = [] := by
  have key (xs : List Char) : ∀ {cs gs}, Spans (xs.foldr litChar .empty) cs gs →
      cs = xs ∧ gs = [] := by
    induction xs with
    | nil => exact fun h => h
    | cons x xs ih =>
      intro cs gs h
      obtain ⟨ds, rfl, hrest⟩ := spans_litChar h
      obtain ⟨rfl, rfl⟩ := ih hrest
      exact ⟨rfl, rfl⟩
  exact key s.toList h

theorem spans_opt {p : Pattern} {cs : List Char} {gs : Groups} (h : Spans (opt p) cs gs) :
    (cs = [] ∧ gs = []) ∨ Spans p cs gs := by
  obtain ⟨n, -, hmost, hrounds⟩ := h
  have hle : n ≤ 1 := hmost 1 rfl
  match n, hle with
  | 0, _ => exact .inl hrounds
  | 1, _ =>
    obtain ⟨ds, es, hs, is, rfl, rfl, hp, rfl, rfl⟩ := hrounds
    exact .inr (by simpa using hp)

theorem Repeats.of_char {accepts : Char → Bool} {n : Nat} {cs : List Char} {gs : Groups}
    (h : Repeats (Spans (char accepts)) n cs gs) :
    cs.length = n ∧ (∀ c ∈ cs, accepts c = true) ∧ gs = [] := by
  induction n generalizing cs gs with
  | zero =>
    obtain ⟨rfl, rfl⟩ := h
    simp
  | succ n ih =>
    obtain ⟨ds, es, hs, is, rfl, rfl, ⟨c, hc, rfl, rfl⟩, hrest⟩ := h
    obtain ⟨hlen, hall, rfl⟩ := ih hrest
    exact ⟨by simp [hlen], List.forall_mem_cons.2 ⟨hc, hall⟩, rfl⟩

theorem spans_rep_char {greedy : Bool} {least : Nat} {most : Option Nat} {accepts : Char → Bool}
    {cs : List Char} {gs : Groups} (h : Spans (rep greedy least most (char accepts)) cs gs) :
    least ≤ cs.length ∧ (∀ c ∈ cs, accepts c = true) ∧ gs = [] := by
  obtain ⟨n, hleast, -, hrounds⟩ := h
  obtain ⟨rfl, hall⟩ := hrounds.of_char
  exact ⟨hleast, hall⟩

theorem spans_exactly_char {n : Nat} {accepts : Char → Bool} {cs : List Char} {gs : Groups}
    (h : Spans (exactly n (char accepts)) cs gs) :
    cs.length = n ∧ (∀ c ∈ cs, accepts c = true) ∧ gs = [] := by
  obtain ⟨m, hleast, hmost, hrounds⟩ := h
  have hle : m ≤ max n n := hmost n rfl
  obtain ⟨hlen, hall⟩ := hrounds.of_char
  exact ⟨by omega, hall⟩

end WidgetBridge.Text.Pattern
