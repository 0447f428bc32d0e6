import WidgetBridge.Proofs.Text.Match
import WidgetBridge.Proofs.Text.Pattern

/-!
# All matches in a text

`Finds p cs gss` lays a text out as the matches of the pattern `p` with the texts between them, and
`gss` are the groups that the matches keep; searching for all matches finds just these
(`Finds.map_findAll`).  In the other direction a match that was found has a place in the text
(`exists_matchAt?_of_mem`).

The texts that a pattern can take also tell where it cannot match (`refuses_of_spans`), and all
characters of such a text are characters of the pattern (`Spans.within`).  A pattern for texts of
one class up to the end also passes a line feed behind such a text (`matchesStart_all_iff`).
-/

namespace WidgetBridge.Text.Pattern

variable {p q : Pattern} {cs ds es rest : List Char} {gs : Groups}

/-! ## Characters of a pattern -/

/-- A pattern all of whose characters have a property. -/
def Within (P : Char → Prop) : Pattern → Prop
  | .char accepts => ∀ c, accepts c = true → P c
  | .seq p q | .alt p q => Within P p ∧ Within P q
  | .rep _ _ _ p | .group _ p => Within P p
  | _ => True

theorem Spans.within {P : Char → Prop} (hp : Within P p) (h : Spans p cs gs) : ∀ c ∈ cs, P c := by
  induction p generalizing cs gs with
  | seq p q ihp ihq =>
    obtain ⟨ds, es, hs, is, rfl, -, hd, he⟩ := h
    exact List.forall_mem_append.2 ⟨ihp hp.1 hd, ihq hp.2 he⟩
  | alt p q ihp ihq =>
    rcases h with h | h
    · exact ihp hp.1 h
    · exact ihq hp.2 h
  | rep greedy least most p ih =>
    obtain ⟨n, -, -, hrounds⟩ := h
    induction n generalizing cs gs with
    | zero => simp [hrounds.1]
    | succ n ihn =>
      obtain ⟨ds, es, hs, is, rfl, -, hd, he⟩ := hrounds
      exact List.forall_mem_append.2 ⟨ih hp hd, ihn he⟩
  | group i p ih =>
    obtain ⟨hs, -, h⟩ := h
    exact ih hp h
  | char accepts =>
    obtain ⟨c, hc, rfl, -⟩ := h
    exact List.forall_mem_singleton.2 (hp c hc)
  | empty | textStart | textEnd | lineEnd | wordBoundary | ahead | notBehind =>
    obtain ⟨rfl, -⟩ := h
    exact List.forall_mem_nil _

theorem within_lit {P : Char → Prop} {s : String} (h : ∀ c ∈ s.toList, P c) : Within P (lit s) := by
  have key (cs : List Char) (h : ∀ c ∈ cs, P c) : Within P (cs.foldr litChar .empty) := by
    induction cs with
    | nil => trivial
    | cons c cs ih =>
      obtain ⟨hc, hcs⟩ := List.forall_mem_cons.1 h
      have hchar : Within P (char (· == c)) := fun d hd => beq_iff_eq.1 hd ▸ hc
      rw [List.foldr_cons]
      unfold litChar
      split
      · exact hchar
      · exact ⟨hchar, ih hcs⟩
  exact key s.toList h

/-- A sequence does not match if its second part matches behind no text that the first part can
take. -/
theorem refuses_of_spans (h : ∀ ds es gs, cs = ds ++ es → Spans p ds gs → Refuses q es) :
    Refuses (p ++ q) cs := by
  intro before position groups k
  refine Option.eq_none_iff_forall_ne_some.2 fun r hr => ?_
  have hrun : run p ⟨before, cs, position, groups⟩ (fun c => run q c k) = some r := hr
  obtain ⟨ds, gs, es, hcs, hspans, hk⟩ := run_spans hrun
  have hnone : run q (Cursor.after ⟨before, cs, position, groups⟩ ds es gs) k = none :=
    h ds es gs hcs hspans _ _ _ k
  cases hnone.symm.trans hk

/-! ## Choices between texts -/

/-- One of several texts; of those that match the first one. -/
def choice (s : String) : List String → Pattern
  | [] => lit s
  | t :: ts => lit s <|> choice t ts

theorem spans_choice {s : String} {ss : List String} (h : Spans (choice s ss) cs gs) :
    gs = [] ∧ ∃ t ∈ s :: ss, cs = t.toList := by
  induction ss generalizing s with
  | nil =>
    obtain ⟨rfl, rfl⟩ := spans_lit h
    exact ⟨rfl, s, List.mem_cons_self, rfl⟩
  | cons t ts ih =>
    rcases h with h | h
    · obtain ⟨rfl, rfl⟩ := spans_lit h
      exact ⟨rfl, s, List.mem_cons_self, rfl⟩
    · obtain ⟨hgs, u, hu, hcs⟩ := ih h
      exact ⟨hgs, u, List.mem_cons_of_mem _ hu, hcs⟩

/-- A text is chosen if none of the others can start where it stands. -/
theorem takes_choice {s t : String} {ss : List String} (ht : t ∈ s :: ss)
    (hapart : ∀ u ∈ s :: ss, u ≠ t → differ u.toList t.toList = true) (rest : List Char) :
    Takes (choice s ss) t.toList rest [] := by
  induction ss generalizing s with
  | nil =>
    obtain rfl := List.mem_singleton.1 ht
    exact takes_lit t rest
  | cons u us ih =>
    by_cases hst : s = t
    · rw [← hst]
      exact (takes_lit s rest).orElse fun _ => choice u us
    · refine takes_orElse_of_refuses
        (refuses_lit (differ_append (hapart s List.mem_cons_self hst) rest)) ?_
      have hrest : t ∈ u :: us := (List.mem_cons.1 ht).resolve_left (Ne.symm hst)
      exact ih hrest fun v hv => hapart v (List.mem_cons_of_mem _ hv)

/-! ## Lazy repetitions -/

theorem Takes.assoc {r : Pattern} (h : Takes (p ++ (q ++ r)) cs rest gs) :
    Takes (p ++ q ++ r) cs rest gs :=
  fun before position groups k result hk => h before position groups k result hk

/-- A lazy repetition of at least one round ends where what follows it first matches. -/
theorem takes_few1_until {d : Char} (hd : Passes q ds) (hq : Takes q es rest gs) (i : Nat) :
    Takes (group i (few1 any) ++ q) (d :: (ds ++ es)) rest (gs ++ [(i, d :: ds)]) := by
  intro before position groups k r hk
  let next : Next := fun c => run q
    { c with groups := (i, (d :: (ds ++ (es ++ rest))).take (c.position - position)) :: c.groups } k
  have hstop : next ⟨ds.reverse ++ d :: before, es ++ rest, position + 1 + ds.length, groups⟩ =
      some r := by
    have htaken : (d :: (ds ++ (es ++ rest))).take (position + 1 + ds.length - position) =
        d :: ds := by
      rw [show position + 1 + ds.length - position = (d :: ds).length by simp; omega,
        ← List.cons_append, List.take_left]
    simp only [next, htaken]
    refine hq _ _ _ k r ?_
    simpa [Nat.add_assoc, Nat.add_comm 1, Nat.add_left_comm] using hk
  have hrounds : furtherRounds false (run any) ((ds ++ (es ++ rest)).length + 1)
      ⟨d :: before, ds ++ (es ++ rest), position + 1, groups⟩ next = some r :=
    furtherRounds_lazy (fun c hc => hc _ _ _ k) hd (by simp; omega) (d :: before)
      (position + 1) hstop
  rw [List.cons_append, List.append_assoc]
  exact hrounds

/-- A text laid out as the matches of a pattern and the texts between them, with the groups of the
matches. -/
inductive Finds (p : Pattern) : List Char → List Groups → Prop
  | last {cs : List Char} (h : Passes p cs) : Finds p cs []
  | next {ds cs rest : List Char} {gs : Groups} {gss : List Groups} (hd : Passes p ds)
      (hne : cs ≠ [])
      (h : Takes p cs rest gs) (hrest : Finds p rest gss) : Finds p (ds ++ (cs ++ rest)) (gs :: gss)

theorem Finds.length_le {gss : List Groups} (h : Finds p cs gss) : gss.length ≤ cs.length := by
  induction h with
  | last => simp
  | @next ds cs rest gs gss hd hne h hrest ih =>
    have := List.length_pos_iff.2 hne
    simp only [List.length_cons, List.length_append]
    omega

theorem Finds.map_allFrom {gss : List Groups} (h : Finds p cs gss) (hend : Refuses p [])
    {fuel : Nat} (hf : gss.length ≤ fuel) (before : List Char) (position : Nat) :
    (allFrom p fuel before position cs).map (·.groups) = gss := by
  induction h generalizing fuel before position with
  | last h => rw [allFrom_eq_nil h hend, List.map_nil]
  | @next ds cs rest gs gss hd hne h hrest ih =>
    rw [List.length_cons] at hf
    obtain ⟨fuel, rfl⟩ : ∃ n, fuel = n + 1 := ⟨fuel - 1, by omega⟩
    obtain ⟨before', position', hall⟩ := allFrom_cons hd h hne fuel before position
    rw [hall, List.map_cons, ih (by omega)]

theorem Finds.map_findAll {gss : List Groups} {s : String} (h : Finds p s.toList gss)
    (hend : Refuses p []) :
    (findAll p s).map (·.groups) = gss := by
  refine h.map_allFrom hend ?_ [] 0
  have := h.length_le
  rw [String.length_toList] at this
  omega

theorem matchesWhole_of_takes {s : String} (h : Takes p s.toList [] gs) :
    matchesWhole p s = true := by
  have hrun := h [] 0 [] (fun c => if c.rest.isEmpty then some c else none) _ rfl
  rw [List.append_nil] at hrun
  rw [matchesWhole, matchWhole?, hrun]
  rfl

/-- A pattern is found if it matches somewhere. -/
theorem isSome_search? {s : String} (hs : s.toList = ds ++ (cs ++ rest)) (h : Takes p cs rest gs) :
    (search? p s).isSome = true := by
  have key (ds before : List Char) (position : Nat) :
      (searchFrom? p before position (ds ++ (cs ++ rest))).isSome = true := by
    induction ds generalizing before position with
    | nil => rw [List.nil_append, searchFrom?_of_takes h, Option.isSome_some]
    | cons d ds ih =>
      rw [List.cons_append, searchFrom?]
      split
      · rfl
      · exact ih _ _
  rw [search?, hs]
  exact key ds [] 0

theorem exists_matchAt?_of_searchFrom? {before : List Char} {position : Nat} {m : Match}
    (h : searchFrom? p before position cs = some m) :
    ∃ ds es before' position', cs = ds ++ es ∧ matchAt? p before' position' es = some m := by
  induction cs generalizing before position with
  | nil => exact ⟨[], [], before, position, rfl, h⟩
  | cons c cs ih =>
    unfold searchFrom? at h
    split at h
    · next m' hm =>
      cases h
      exact ⟨[], c :: cs, before, position, rfl, hm⟩
    · obtain ⟨ds, es, before', position', rfl, hm⟩ := ih h
      exact ⟨c :: ds, es, before', position', rfl, hm⟩

/-- Every match that is found has a place in the text. -/
theorem exists_matchAt?_of_mem {s : String} {m : Match} (h : m ∈ findAll p s) :
    ∃ ds es before position, s.toList = ds ++ es ∧ matchAt? p before position es = some m := by
  have key (fuel : Nat) : ∀ before position cs, m ∈ allFrom p fuel before position cs →
      ∃ ds es before' position', cs = ds ++ es ∧ matchAt? p before' position' es = some m := by
    induction fuel with
    | zero => nofun
    | succ fuel ih =>
      intro before position cs h
      unfold allFrom at h
      split at h
      · cases h
      · next m' hm =>
        obtain ⟨as, bs, before', position', rfl, hmatch⟩ := exists_matchAt?_of_searchFrom? hm
        have hown : ∃ ds es b pos, as ++ bs = ds ++ es ∧ matchAt? p b pos es = some m' :=
          ⟨as, bs, before', position', rfl, hmatch⟩
        obtain ⟨hbs, -⟩ := matchAt?_spans hmatch
        -- a later match stands in what this one leaves
        have hlater (us : List Char) {ts : List Char} (hts : m'.after = us ++ ts)
            {b : List Char} {pos : Nat}
            (h : m ∈ allFrom p fuel b pos ts) :
            ∃ ds es b pos, as ++ bs = ds ++ es ∧ matchAt? p b pos es = some m := by
          obtain ⟨ds, es, b, pos, rfl, hm⟩ := ih _ _ _ h
          exact ⟨as ++ (m'.text ++ (us ++ ds)), es, b, pos, by rw [hbs, hts]; simp, hm⟩
        split_ifs at h
        · split at h
          · cases List.mem_singleton.1 h
            exact hown
          · next c cs hafter =>
            rcases List.mem_cons.1 h with rfl | h
            · exact hown
            · exact hlater [c] (by rw [hafter, List.singleton_append]) h
        · rcases List.mem_cons.1 h with rfl | h
          · exact hown
          · exact hlater [] rfl h
  exact key _ [] 0 _ h

/-! ## Texts of one class -/

theorem takes_textEnd_newline : Takes textEnd [] ['\n'] [] := by
  intro before position groups k r hk
  simpa [run] using hk

/-- A text of one class matches up to its end, and so does one with a line feed behind it. -/
theorem matchesStart_all_iff {accepts : Char → Bool} (hline : accepts '\n' = false) {s : String} :
    matchesStart (textStart ++ many (char accepts) ++ textEnd) s = true ↔
      ∃ t : String, (∀ c ∈ t.toList, accepts c = true) ∧ (s = t ∨ s = t ++ "\n") := by
  have hends {cs rest : List Char} (hcs : ∀ c ∈ cs, accepts c = true) (hs : s.toList = cs ++ rest)
      (hrest : ∀ d ∈ rest.head?, accepts d = false) (hend : Takes textEnd [] rest []) :
      matchesStart (textStart ++ many (char accepts) ++ textEnd) s = true := by
    have hmany := ((opens_textStart (cs ++ rest)).seq (takes_many hcs hrest)).seq_nil hend
    rw [matchesStart, matchStart?_of_opens hs hmany]
    rfl
  constructor
  · intro h
    obtain ⟨m, hm⟩ := Option.isSome_iff_exists.1 h
    obtain ⟨rest, hs, hrest, hspans⟩ := matchStart?_textEnd hm
    obtain ⟨ds, es, gs, gs', htext, -, ⟨rfl, -⟩, hmany⟩ := spans_append.1 hspans
    obtain ⟨-, hes, -⟩ := spans_rep_char hmany
    rw [List.nil_append] at htext
    refine ⟨String.ofList es, by rwa [String.toList_ofList], ?_⟩
    rcases hrest with rfl | rfl
    · left
      rw [← String.toList_inj, hs, htext, List.append_nil, String.toList_ofList]
    · right
      rw [← String.toList_inj, hs, htext, String.toList_append, String.toList_ofList]
      rfl
  · rintro ⟨t, ht, rfl | rfl⟩
    · exact hends ht (List.append_nil _).symm nofun takes_textEnd
    · exact hends ht String.toList_append (by simpa using hline) takes_textEnd_newline

end WidgetBridge.Text.Pattern
