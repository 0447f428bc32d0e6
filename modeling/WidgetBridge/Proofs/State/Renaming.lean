import WidgetBridge.Proofs.Text.Search
import WidgetBridge.State.Mutation

/-!
# Renaming in source text

`Renames free old new before cs out` says that `out` is the text `cs` with the word `old` replaced
by `new` wherever `free` holds of what stands around it, and unchanged elsewhere.
`renameIdentifier` renames the words that are loose: whole names without a dot right before them
(`renames_renameIdentifier`).

A loose name can be renamed to a second one and back, as long as the second one does not stand loose
in the text already (`Renames.symm`).
-/

namespace WidgetBridge.State

open WidgetBridge.Text WidgetBridge.Text.Pattern

/-! ## Names in a text -/

/-- A character of a name: a letter or digit of any script, the underscore or `$`. -/
def isNamePart (c : Char) : Bool := isWord c || c == '$'

/-- Whether a word is a whole name.  What stands before it is read backwards. -/
def isWhole (before after : List Char) : Bool :=
  !before.head?.any isNamePart && !after.head?.any isNamePart

/-- Whether a word is a whole name without a dot right before it. -/
def isLoose (before after : List Char) : Bool := isWhole before after && before.head? != some '.'

/-- A text and the same text with a word replaced wherever it stands free. -/
inductive Renames (free : List Char → List Char → Bool) (old new : List Char) :
    List Char → List Char → List Char → Prop
  | done (before : List Char) : Renames free old new before [] []
  | renamed {before rest out : List Char} (h : free before rest = true)
      (hrest : Renames free old new (old.reverse ++ before) rest out) :
      Renames free old new before (old ++ rest) (new ++ out)
  | kept {before : List Char} {c : Char} {cs out : List Char}
      (h : ∀ rest, c :: cs = old ++ rest → free before rest = false)
      (hrest : Renames free old new (c :: before) cs out) : Renames free old new before
        (c :: cs) (c :: out)

section Renames

variable {free free' : List Char → List Char → Bool}
    {old new before before' cs ds out out' : List Char}

theorem Renames.cases_eq (h : Renames free old new before cs out) :
    (cs = [] ∧ out = []) ∨
    (∃ rest tail, cs = old ++ rest ∧ out = new ++ tail ∧ free before rest = true ∧
      Renames free old new (old.reverse ++ before) rest tail) ∨
    (∃ c rest tail, cs = c :: rest ∧ out = c :: tail ∧
      (∀ us, cs = old ++ us → free before us = false) ∧
      Renames free old new (c :: before) rest tail) := by
  cases h with
  | done => exact .inl ⟨rfl, rfl⟩
  | renamed h hrest => exact .inr (.inl ⟨_, _, rfl, rfl, h, hrest⟩)
  | kept h hrest => exact .inr (.inr ⟨_, _, _, rfl, rfl, h, hrest⟩)

/-- There is one way to rename a word. -/
theorem Renames.unique (hold : old ≠ []) (h : Renames free old new before cs out)
    (h' : Renames free old new before cs out') : out = out' := by
  induction h generalizing out' with
  | done =>
    obtain ⟨-, rfl⟩ | ⟨rest, tail, hcs, -⟩ | ⟨c, rest, tail, hcs, -⟩ := h'.cases_eq
    · rfl
    · exact absurd (List.append_eq_nil_iff.1 hcs.symm).1 hold
    · cases hcs
  | @renamed before rest out hfree hrest ih =>
    obtain ⟨hcs, -⟩ | ⟨rest', tail, hcs, rfl, -, htail⟩ | ⟨c, rest', tail, -, -, hkept, -⟩ :=
      h'.cases_eq
    · exact absurd (List.append_eq_nil_iff.1 hcs).1 hold
    · obtain rfl := List.append_cancel_left hcs
      rw [ih htail]
    · cases hfree.symm.trans (hkept rest rfl)
  | @kept before c cs out hkept hrest ih =>
    obtain ⟨hcs, -⟩ | ⟨rest', tail, hcs, -, hfree, -⟩ | ⟨c', rest', tail, hcs, rfl, -, htail⟩ :=
      h'.cases_eq
    · cases hcs
    · cases hfree.symm.trans (hkept rest' hcs)
    · cases hcs
      rw [ih htail]

/-- Only the places at which the word stands matter. -/
theorem Renames.congr (h : Renames free old new before cs out)
    (hfree : ∀ as bs, cs = as ++ (old ++ bs) →
      free (as.reverse ++ before) bs = free' (as.reverse ++ before) bs) :
    Renames free' old new before cs out := by
  induction h with
  | done => exact .done _
  | @renamed before rest out h hrest ih =>
    refine .renamed ((hfree [] rest rfl).symm.trans h) (ih fun as bs heq => ?_)
    simpa using hfree (old ++ as) bs (by rw [heq, List.append_assoc])
  | @kept before c cs out h hrest ih =>
    refine .kept (fun rest heq => ((hfree [] rest heq).symm.trans (h rest heq)))
      (ih fun as bs heq => ?_)
    simpa using hfree (c :: as) bs (by rw [heq, List.cons_append])

/-- A word replaced by itself. -/
theorem renames_self (free : List Char → List Char → Bool) (hold : old ≠ [])
    (before cs : List Char) :
    Renames free old old before cs cs := by
  induction hlen : cs.length using Nat.strongRecOn generalizing before cs with
  | _ n ih =>
    subst hlen
    by_cases h : ∃ rest, cs = old ++ rest ∧ free before rest = true
    · obtain ⟨rest, rfl, hfree⟩ := h
      have hlt : rest.length < (old ++ rest).length := by
        have := List.length_pos_iff.2 hold
        rw [List.length_append]
        omega
      exact .renamed hfree (ih _ hlt _ _ rfl)
    · cases cs with
      | nil => exact .done _
      | cons c cs =>
        refine .kept (fun rest heq => ?_) (ih cs.length (by simp) _ _ rfl)
        by_contra hfree
        exact h ⟨rest, heq, Bool.not_eq_false _ ▸ hfree⟩

/-! ## What is in the renamed text -/

theorem Renames.mem (h : Renames free old new before cs out) {c : Char} (hc : c ∈ out) :
    c ∈ cs ∨ c ∈ new := by
  induction h with
  | done => cases hc
  | renamed h hrest ih =>
    rcases List.mem_append.1 hc with hc | hc
    · exact .inr hc
    · exact (ih hc).imp_left (List.mem_append_right _)
  | kept h hrest ih =>
    rcases List.mem_cons.1 hc with rfl | hc
    · exact .inl List.mem_cons_self
    · exact (ih hc).imp_left (List.mem_cons_of_mem _)

theorem Renames.ne_nil (hnew : new ≠ []) (h : Renames free old new before cs out) (hcs : cs ≠ []) :
    out ≠ [] := by
  obtain ⟨rfl, -⟩ | ⟨rest, tail, -, rfl, -⟩ | ⟨c, rest, tail, -, rfl, -⟩ := h.cases_eq
  · exact absurd rfl hcs
  · exact fun hnil => hnew (List.append_eq_nil_iff.1 hnil).1
  · exact List.cons_ne_nil _ _

theorem Renames.mem_head? (hnew : new ≠ []) (h : Renames free old new before cs out) {c : Char}
    (hc : c ∈ out.head?) : c ∈ cs.head? ∨ c ∈ new.head? := by
  obtain ⟨-, rfl⟩ | ⟨rest, tail, -, rfl, -⟩ | ⟨d, rest, tail, rfl, rfl, -⟩ := h.cases_eq
  · cases hc
  · rw [List.head?_append_of_ne_nil _ hnew] at hc
    exact .inr hc
  · exact .inl hc

theorem Renames.mem_getLast? (hold : old ≠ []) (hnew : new ≠ [])
    (h : Renames free old new before cs out) {c : Char} (hc : c ∈ out.getLast?) :
    c ∈ cs.getLast? ∨ c ∈ new.getLast? := by
  induction h with
  | done => cases hc
  | @renamed before rest out h hrest ih =>
    rw [List.getLast?_append] at hc ⊢
    cases hlast : out.getLast? with
    | none =>
      rw [hlast, Option.none_or] at hc
      exact .inr hc
    | some d =>
      rw [hlast, Option.some_or] at hc
      refine (ih (hlast ▸ hc)).imp_left fun hc => ?_
      rw [show rest.getLast? = some c from hc, Option.some_or]
      rfl
  | @kept before d cs out h hrest ih =>
    cases cs with
    | nil =>
      obtain ⟨-, rfl⟩ | ⟨rest, tail, hnil, rfl, -⟩ | ⟨e, rest, tail, hcs, -⟩ := hrest.cases_eq
      · exact .inl hc
      · exact absurd (List.append_eq_nil_iff.1 hnil.symm).1 hold
      · cases hcs
    | cons e es =>
      have hne := hrest.ne_nil hnew (List.cons_ne_nil e es)
      rw [List.getLast?_cons_of_ne_nil hne] at hc
      rw [List.getLast?_cons_cons]
      exact ih hc

end Renames

/-! ## Renaming loose names -/

section Loose

variable {old new before before' cs ds out : List Char}

/-- Two texts, read backwards, that end alike: with one character, or both inside of a name. -/
def EndAlike (before before' : List Char) : Prop :=
  before.head? = before'.head? ∨
    (before.head?.any isNamePart = true ∧ before'.head?.any isNamePart = true)

theorem isLoose_of_endAlike (h : EndAlike before before') {after after' : List Char}
    (hafter : after.head? = after'.head?) : isLoose before after = isLoose before' after' := by
  unfold isLoose isWhole
  rcases h with h | ⟨h, h'⟩
  · rw [h, hafter]
  · rw [h, h', Bool.not_true, Bool.false_and, Bool.false_and, Bool.false_and, Bool.false_and]

theorem isLoose_eq_false (h : before.head?.any isNamePart = true) (after : List Char) :
    isLoose before after = false := by
  rw [isLoose, isWhole, h, Bool.not_true, Bool.false_and, Bool.false_and]

theorem isLoose_after (h : isLoose before cs = true) : cs.head?.any isNamePart = false := by
  simp only [isLoose, isWhole, Bool.and_eq_true, Bool.not_eq_true'] at h
  exact h.1.2

/-- A word of characters of names, which is not empty. -/
structure IsNameWord (cs : List Char) : Prop where
  ne_nil : cs ≠ []
  parts : ∀ c ∈ cs, isNamePart c = true

theorem IsNameWord.reverse_head? (h : IsNameWord cs) (before : List Char) :
    (cs.reverse ++ before).head?.any isNamePart = true := by
  have hne : cs.reverse ≠ [] := by simpa using h.ne_nil
  rw [List.head?_append_of_ne_nil _ hne, List.head?_reverse, List.getLast?_eq_some_getLast h.ne_nil]
  exact h.parts _ (List.getLast_mem h.ne_nil)

/-- Inside of a name nothing is renamed. -/
theorem Renames.run_of_part (hb : before.head?.any isNamePart = true)
    (h : Renames isLoose old new before cs out) (hds : ∀ d ∈ ds, isNamePart d = true)
    {rest : List Char} (hout : out = ds ++ rest) :
    ∃ rest', cs = ds ++ rest' ∧ rest'.head? = rest.head? := by
  induction ds generalizing before cs out with
  | nil =>
    refine ⟨cs, rfl, ?_⟩
    rw [← show out = rest from hout]
    obtain ⟨rfl, rfl⟩ | ⟨us, tail, -, -, hloose, -⟩ | ⟨c, us, tail, rfl, rfl, -⟩ := h.cases_eq
    · rfl
    · cases (isLoose_eq_false hb us).symm.trans hloose
    · rfl
  | cons d ds ih =>
    obtain ⟨hd, hparts⟩ := List.forall_mem_cons.1 hds
    obtain ⟨-, rfl⟩ | ⟨us, tail, -, -, hloose, -⟩ | ⟨c, us, tail, rfl, rfl, -, htail⟩ := h.cases_eq
    · cases hout
    · cases (isLoose_eq_false hb us).symm.trans hloose
    · rw [List.cons_append, List.cons.injEq] at hout
      obtain ⟨rfl, hout⟩ := hout
      obtain ⟨rest', rfl, hhead⟩ := ih (by simpa using hd) htail hparts hout
      exact ⟨rest', rfl, hhead⟩

/-- Renaming a word to a name that does not stand loose in the text can be undone. -/
theorem Renames.symm (hold : IsNameWord old) (hnew : IsNameWord new)
    (h : Renames isLoose old new before cs out)
    (hloose : ∀ as bs, cs = as ++ (new ++ bs) → isLoose (as.reverse ++ before) bs = false)
    (hb : EndAlike before before') : Renames isLoose new old before' out cs := by
  induction h generalizing before' with
  | done => exact .done _
  | @renamed before rest out h hrest ih =>
    have hpart := hold.reverse_head? before
    obtain ⟨rest', hrest', hhead⟩ := hrest.run_of_part hpart (List.forall_mem_nil _) rfl
    obtain rfl : rest = rest' := hrest'
    refine .renamed ?_ (ih (fun as bs heq => ?_) (.inr ⟨hpart, hnew.reverse_head? before'⟩))
    · rwa [← isLoose_of_endAlike hb hhead]
    · simpa using hloose (old ++ as) bs (by rw [heq, List.append_assoc])
  | @kept before c cs out h hrest ih =>
    refine .kept (fun rest hout => ?_) (ih (fun as bs heq => ?_) (.inl rfl))
    · obtain ⟨d, ds, hds⟩ := List.exists_cons_of_ne_nil hnew.ne_nil
      rw [hds, List.cons_append, List.cons.injEq] at hout
      obtain ⟨rfl, hout⟩ := hout
      obtain ⟨hc, hparts⟩ := List.forall_mem_cons.1 (hds ▸ hnew.parts)
      obtain ⟨rest', rfl, hhead⟩ := hrest.run_of_part (by simpa using hc) hparts hout
      rw [← isLoose_of_endAlike hb hhead]
      exact hloose [] rest' (by rw [hds]; rfl)
    · simpa using hloose (c :: as) bs (by rw [heq, List.cons_append])

/-- A word that the new name does not hold is in the renamed text only if it was there before. -/
theorem Renames.held_before (hold : IsNameWord old) (h : Renames isLoose old new before cs out)
    (hds : ∀ d ∈ ds, isNamePart d = true) (hnot : ¬ ds <:+: new) (hpart : ds <:+: out) :
    ds <:+: cs := by
  induction h with
  | done => exact hpart
  | @renamed before rest out h hrest ih =>
    obtain ⟨rest', hrest', hhead⟩ :=
      hrest.run_of_part (hold.reverse_head? before) (List.forall_mem_nil _) rfl
    obtain rfl : rest = rest' := hrest'
    -- the text after the new name does not start inside of a name
    have hstop : ∀ c ∈ out.head?, isNamePart c = false := by
      have hafter := isLoose_after h
      rw [hhead] at hafter
      rintro c hc
      simpa [show out.head? = some c from hc] using hafter
    have hout : ds <:+: out := by
      obtain ⟨as, bs, heq⟩ := hpart
      rcases List.append_eq_append_iff.1 heq with ⟨xs, rfl, -⟩ | ⟨xs, hsplit, hxs⟩
      · exact absurd ⟨as, xs, rfl⟩ hnot
      · rcases List.append_eq_append_iff.1 hsplit with ⟨ys, rfl, hys⟩ | ⟨ys, rfl, hys⟩
        · cases xs with
          | nil => exact absurd ⟨as, [], by rw [hys, List.append_nil, List.append_nil]⟩ hnot
          | cons x xs =>
            have hx := hstop x (by rw [hxs]; rfl)
            rw [hds x (by simp [hys])] at hx
            cases hx
        · exact ⟨ys, bs, by rw [hxs, hys]⟩
    exact (ih hout).trans (List.suffix_append old rest).isInfix
  | @kept before c cs out h hrest ih =>
    rcases List.infix_cons_iff.1 hpart with ⟨us, hus⟩ | hpart
    · cases ds with
      | nil => exact List.nil_infix
      | cons d ds =>
        obtain ⟨hd, hds⟩ := List.forall_mem_cons.1 hds
        rw [List.cons_append, List.cons.injEq] at hus
        obtain ⟨rfl, hus⟩ := hus
        obtain ⟨rest, rfl, -⟩ := hrest.run_of_part (by simpa using hd) hds hus.symm
        exact (List.prefix_append (d :: ds) rest).isInfix
    · exact (ih hpart).trans (List.suffix_cons c cs).isInfix

end Loose

/-! ## The pattern of loose names -/

theorem run_ahead_part (c : Cursor) (k : Next) :
    run (ahead false (char isNamePart)) c k = if c.rest.head?.any isNamePart = true
      then none else k c := by
  obtain ⟨before, rest, position, groups⟩ := c
  cases rest with
  | nil => rfl
  | cons d ds => by_cases hd : isNamePart d = true <;> simp [run, Cursor.step?, hd]

theorem run_freeName (old : String) (before cs : List Char) (position : Nat) :
    run (Form.freeName old) ⟨before, cs, position, []⟩ some =
        (dropHead? old.toList cs).bind fun rest =>
      if isLoose before rest = true
        then some ⟨old.toList.reverse ++ before, rest, position + old.toList.length, []⟩
      else none := by
  -- what follows the look backwards
  let next : Next := fun c => run (lit old) c fun c' => run (ahead false (char isNamePart)) c' some
  have hnext : next ⟨before, cs, position, []⟩ = (dropHead? old.toList cs).bind fun rest =>
      if rest.head?.any isNamePart = true then none
      else some ⟨old.toList.reverse ++ before, rest, position + old.toList.length, []⟩ := by
    simp only [next, run_lit, run_ahead_part]
  cases before with
  | nil =>
    change next _ = _
    rw [hnext]
    refine congrArg _ (funext fun rest => ?_)
    cases hpart : rest.head?.any isNamePart <;> simp [isLoose, isWhole, hpart]
  | cons x xs =>
    change (if isNamePart x || x == '.' then none else next _) = _
    rw [hnext]
    cases hx : isNamePart x with
    | true => simp [isLoose, isWhole, hx]
    | false =>
      by_cases hdot : x = '.'
      · simp [isLoose, isWhole, hdot]
      · have hne : (x == '.') = false := by simpa using hdot
        rw [hne, Bool.or_false, if_neg Bool.false_ne_true]
        refine congrArg _ (funext fun rest => ?_)
        cases hpart : rest.head?.any isNamePart <;> simp [isLoose, isWhole, hpart, hx, hdot]

/-- The pattern matches where the name stands loose. -/
theorem matchAt?_freeName (old : String) (before : List Char) (position : Nat) (cs : List Char) :
    matchAt? (Form.freeName old) before position cs = (dropHead? old.toList cs).bind fun rest =>
      if isLoose before rest = true then some ⟨before.reverse, old.toList, rest, []⟩ else none := by
  rw [matchAt?, run_freeName]
  cases hrest : dropHead? old.toList cs with
  | none => rfl
  | some rest =>
    have hcs := dropHead?_eq_some_iff.1 hrest
    rw [Option.bind_some, Option.bind_some]
    split_ifs
    · rw [Option.map_some, hcs, Nat.add_sub_cancel_left, List.take_left]
    · rfl

/-- What a search for a loose name may give: the name behind text that stays as it is, or nothing if
all of the text stays so. -/
def Found (old new before cs : List Char) : Option Match → Prop
  | none => Renames isLoose old new before cs cs
  | some m => ∃ ds, cs = ds ++ (old ++ m.after) ∧ m.text = old ∧ m.before = before.reverse ++ ds ∧
      ∀ out, Renames isLoose old new (m.text.reverse ++ m.before.reverse) m.after out →
        Renames isLoose old new before cs (ds ++ (new ++ out))

theorem Found.skip {old new before cs : List Char} {c : Char} {r : Option Match}
    (hkept : ∀ rest, c :: cs = old ++ rest → isLoose before rest = false)
    (h : Found old new (c :: before) cs r) :
    Found old new before (c :: cs) r := by
  cases r with
  | none => exact .kept hkept h
  | some m =>
    obtain ⟨ds, hcs, htext, hbefore, hrest⟩ := h
    refine ⟨c :: ds, by rw [hcs, List.cons_append], htext, by simpa using hbefore,
      fun out hout => ?_⟩
    exact .kept hkept (hrest out hout)

theorem found_searchFrom? {old : String} (hold : old ≠ "") (new before : List Char) (position : Nat)
    (cs : List Char) :
    Found old.toList new before cs (searchFrom? (Form.freeName old) before position cs) := by
  induction cs generalizing before position with
  | nil =>
    have hnone : dropHead? old.toList [] = none := by
      obtain ⟨c, cs, hcs⟩ := List.exists_cons_of_ne_nil (show old.toList ≠ [] by simpa using hold)
      rw [hcs]
      rfl
    rw [searchFrom?, matchAt?_freeName, hnone]
    exact .done _
  | cons c cs ih =>
    have hskip := (ih (c :: before) (position + 1)).skip
    rw [searchFrom?, matchAt?_freeName]
    cases hrest : dropHead? old.toList (c :: cs) with
    | none =>
      refine hskip fun rest heq => ?_
      rw [dropHead?_eq_some_iff.2 heq] at hrest
      cases hrest
    | some rest =>
      rw [Option.bind_some]
      have hcs := dropHead?_eq_some_iff.1 hrest
      split_ifs with hloose
      · refine ⟨[], hcs, rfl, by simp, fun out hout => ?_⟩
        rw [List.reverse_reverse] at hout
        rw [hcs]
        exact .renamed hloose hout
      · refine hskip fun us heq => ?_
        rw [dropHead?_eq_some_iff.2 heq] at hrest
        cases hrest
        exact Bool.not_eq_true _ ▸ hloose

theorem renames_go {old : String} (hold : old ≠ "") (new : String) {fuel : Nat}
    (before cs : List Char) (hf : cs.length < fuel) :
    Renames isLoose old.toList new.toList before cs
      (replaceAll.go (fun _ => new) before.length cs
        (allFrom (Form.freeName old) fuel before before.length cs)).toList := by
  induction fuel generalizing before cs with
  | zero => omega
  | succ fuel ih =>
    have hfound := found_searchFrom? hold new.toList before before.length cs
    unfold allFrom
    split
    · next hnone =>
      rw [hnone] at hfound
      rw [replaceAll.go, String.toList_ofList]
      exact hfound
    · next m hm =>
      rw [hm] at hfound
      obtain ⟨ds, rfl, htext, hbefore, hrest⟩ := hfound
      have hpos : 0 < old.toList.length := List.length_pos_iff.2 (by simpa using hold)
      have hempty : m.text.isEmpty = false := by
        rw [htext, List.isEmpty_eq_false_iff, ← List.length_pos_iff]
        exact hpos
      have hlen : (m.text.reverse ++ m.before.reverse).length =
          m.before.length + m.text.length := by
        rw [List.length_append, List.length_reverse, List.length_reverse, Nat.add_comm]
      have htail := ih (m.text.reverse ++ m.before.reverse) m.after (by
        simp only [List.length_append] at hf
        omega)
      have htake : (ds ++ (old.toList ++ m.after)).take (m.before.length - before.length) = ds := by
        rw [hbefore, List.length_append, List.length_reverse, Nat.add_sub_cancel_left,
          List.take_left]
      rw [hlen] at htail
      simp only [hempty, Bool.false_eq_true, if_false, replaceAll.go, htake, String.toList_append,
        String.toList_ofList, List.append_assoc]
      exact hrest _ htail

/-- Renaming goes to the loose names of a text and leaves the rest as it is. -/
theorem renames_renameIdentifier {old : String} (hold : old ≠ "") (source new : String) :
    Renames isLoose old.toList new.toList [] source.toList
      (renameIdentifier source old new).toList := by
  unfold renameIdentifier
  split_ifs with heq
  · rw [← beq_iff_eq.1 heq]
    exact renames_self _ (by simpa using hold) _ _
  · refine renames_go hold new [] _ ?_
    rw [String.length_toList]
    omega

end WidgetBridge.State
