import WidgetBridge.Proofs.Text.Layout
import WidgetBridge.Text.Pattern

/-!
# What patterns take

`Takes p cs rest gs` says that the first way in which the pattern `p` matches in front of
`cs ++ rest` takes `cs`, keeps the groups `gs`, and leaves `rest`.  `Refuses p cs` says that `p`
does not match in front of `cs`.  There is a rule for each way in which patterns are built.

`Passes p cs` says that `p` starts nowhere in `cs`.  Searching goes over such a text to the match
behind it (`search?_eq_some`), and so does the search for all matches (`allFrom_cons`).

`Leaves p cs R` is about all ways in which `p` matches in front of `cs`: what each of them leaves
has the property `R`.  It shows that a pattern does not match although its first part can stop in
many places.
-/

namespace WidgetBridge.Text.Pattern

/-- A pattern whose first match takes some characters and leaves the rest. -/
def Takes (p : Pattern) (cs rest : List Char) (gs : List (Nat × List Char)) : Prop :=
  ∀ before position groups k r,
    k ⟨cs.reverse ++ before, rest, position + cs.length, gs ++ groups⟩ = some r →
      run p ⟨before, cs ++ rest, position, groups⟩ k = some r

/-- A pattern that does not match in front of some characters. -/
def Refuses (p : Pattern) (cs : List Char) : Prop :=
  ∀ before position groups k, run p ⟨before, cs, position, groups⟩ k = none

section Rules

variable {p q : Pattern} {cs ds rest : List Char} {gs gs' : List (Nat × List Char)}

theorem Takes.seq (hp : Takes p cs (ds ++ rest) gs) (hq : Takes q ds rest gs') :
    Takes (p ++ q) (cs ++ ds) rest (gs' ++ gs) := by
  intro before position groups k r hk
  rw [List.append_assoc]
  refine hp before position groups _ r (hq _ _ _ k r ?_)
  simpa [Nat.add_assoc] using hk

/-- A second pattern may take nothing. -/
theorem Takes.seq_nil (hp : Takes p cs rest gs) (hq : Takes q [] rest []) :
    Takes (p ++ q) cs rest gs := by
  have h : Takes (p ++ q) (cs ++ []) rest ([] ++ gs) := hp.seq (show Takes q [] rest [] from hq)
  rwa [List.append_nil] at h

theorem run_orElse (p : Pattern) (q : Unit → Pattern) (c : Cursor) (k : Next) :
    run (HOrElse.hOrElse p q) c k = (run p c k).or (run (q ()) c k) := by
  change run (alt p (q ())) c k = _
  rw [run]
  cases run p c k <;> rfl

theorem Takes.orElse (hp : Takes p cs rest gs) (q : Unit → Pattern) :
    Takes (HOrElse.hOrElse p q) cs rest gs := by
  intro before position groups k r hk
  rw [run_orElse, hp before position groups k r hk, Option.some_or]

theorem Takes.group (hp : Takes p cs rest gs) (i : Nat) :
    Takes (group i p) cs rest ((i, cs) :: gs) := by
  intro before position groups k r hk
  refine hp before position groups _ r ?_
  simpa using hk

theorem takes_char {accepts : Char → Bool} {c : Char} (h : accepts c = true) (rest : List Char) :
    Takes (char accepts) [c] rest [] := by
  intro before position groups k r hk
  simpa [run, Cursor.step?, h] using hk

theorem Refuses.seq (hp : Refuses p cs) (q : Pattern) : Refuses (p ++ q) cs :=
  fun before position groups k => hp before position groups fun c => run q c k

theorem Refuses.orElse (hp : Refuses p cs) {q : Unit → Pattern} (hq : Refuses (q ()) cs) :
    Refuses (HOrElse.hOrElse p q) cs := by
  intro before position groups k
  rw [run_orElse, hp before position groups k, Option.none_or]
  exact hq before position groups k

theorem Refuses.group (hp : Refuses p cs) (i : Nat) : Refuses (group i p) cs :=
  fun before position groups _ => hp before position groups _

theorem takes_orElse_of_refuses {q : Unit → Pattern} (hp : Refuses p (cs ++ rest))
    (hq : Takes (q ()) cs rest gs) :
    Takes (HOrElse.hOrElse p q) cs rest gs := by
  intro before position groups k r hk
  rw [run_orElse, hp before position groups k, Option.none_or]
  exact hq before position groups k r hk

/-! ## Literal characters -/

/-- The last character makes no sequence, which matches the same way. -/
theorem run_litChar (x : Char) (p : Pattern) (c : Cursor) (k : Next) :
    run (litChar x p) c k = (c.step? (· == x)).bind fun c' => run p c' k := by
  cases p <;> rfl

theorem run_lit (s : String) (c : Cursor) (k : Next) :
    run (lit s) c k = (dropHead? s.toList c.rest).bind fun rest =>
      k ⟨s.toList.reverse ++ c.before, rest, c.position + s.toList.length, c.groups⟩ := by
  unfold lit
  induction s.toList generalizing c with
  | nil => rfl
  | cons x xs ih =>
    rw [List.foldr_cons, run_litChar]
    obtain ⟨before, rest, position, groups⟩ := c
    cases rest with
    | nil => rfl
    | cons y ys =>
      simp only [Cursor.step?, dropHead?, beq_iff_eq]
      by_cases hxy : y = x
      · simp only [hxy, if_true, Option.bind_some, ih, List.reverse_cons, List.append_assoc,
          List.singleton_append, List.length_cons, Nat.add_assoc, Nat.add_comm 1]
      · simp [hxy, Ne.symm hxy]

theorem takes_lit (s : String) (rest : List Char) : Takes (lit s) s.toList rest [] := by
  intro before position groups k r hk
  rw [run_lit, dropHead?_append]
  exact hk

theorem refuses_lit {s : String} (h : differ s.toList cs = true) : Refuses (lit s) cs := by
  intro before position groups k
  rw [run_lit, dropHead?_of_differ h]
  rfl

/-- A text that is too short does not start with a literal. -/
theorem refuses_lit_of_length_lt {s : String} (h : cs.length < s.toList.length) :
    Refuses (lit s) cs := by
  intro before position groups k
  have hnone : dropHead? s.toList cs = none := by
    refine Option.eq_none_iff_forall_ne_some.2 fun rest hrest => ?_
    rw [dropHead?_eq_some_iff] at hrest
    rw [hrest, List.length_append] at h
    omega
  rw [run_lit, hnone]
  rfl

theorem refuses_nil_lit {s : String} (h : s ≠ "") : Refuses (lit s) [] :=
  refuses_lit_of_length_lt (List.length_pos_iff.2 (by simpa using h))

/-! ## Repetitions -/

/-- A round that leads to success is made. -/
theorem furtherRounds_succ {step : Cursor → Next → Option Cursor} {n : Nat} {c : Cursor} {k : Next}
    {r : Cursor} (h : (step c fun c' =>
      if c'.position == c.position then none else furtherRounds true step n c' k) = some r) :
    furtherRounds true step (n + 1) c k = some r := by
  simp only [furtherRounds, if_true, h]

/-- Rounds go over characters of the class to where the repetition stops. -/
theorem furtherRounds_through {accepts : Char → Bool} {ds rest : List Char}
    (hds : ∀ d ∈ ds, accepts d = true) {n : Nat} (hn : ds.length ≤ n) (before : List Char)
    (position : Nat) (groups : List (Nat × List Char)) {k : Next} {r : Cursor}
    (hk : ∀ m, furtherRounds true (run (char accepts)) m
      ⟨ds.reverse ++ before, rest, position + ds.length, groups⟩ k = some r) :
    furtherRounds true (run (char accepts)) n ⟨before, ds ++ rest, position, groups⟩ k =
      some r := by
  induction ds generalizing n before position with
  | nil => exact hk n
  | cons d ds ih =>
    rw [List.length_cons] at hn
    obtain ⟨n, rfl⟩ : ∃ m, n = m + 1 := ⟨n - 1, by omega⟩
    have hnext := ih (fun e he => hds e (List.mem_cons_of_mem _ he))
      (by omega : ds.length ≤ n) (d :: before) (position + 1) fun m => by
        simpa [Nat.add_assoc, Nat.add_comm 1] using hk m
    have hpos : (position + 1 == position) = false := by simp
    refine furtherRounds_succ ?_
    rw [run, List.cons_append, Cursor.step?]
    simp only [hds d List.mem_cons_self, if_true, Option.bind_some, hpos,
      Bool.false_eq_true, if_false, hnext]

theorem furtherRounds_greedy {accepts : Char → Bool} {ds rest : List Char}
    (hds : ∀ d ∈ ds, accepts d = true) (hrest : ∀ d ∈ rest.head?, accepts d = false) {n : Nat}
    (hn : ds.length ≤ n) (before : List Char) (position : Nat) (groups : List (Nat × List Char))
    {k : Next} {r : Cursor}
    (hk : k ⟨ds.reverse ++ before, rest, position + ds.length, groups⟩ = some r) :
    furtherRounds true (run (char accepts)) n ⟨before, ds ++ rest, position, groups⟩ k =
      some r := by
  refine furtherRounds_through hds hn before position groups fun m => ?_
  have hstop : Cursor.step? accepts ⟨ds.reverse ++ before, rest, position + ds.length, groups⟩ =
      none := by
    cases rest with
    | nil => rfl
    | cons d rest => simp [Cursor.step?, hrest d rfl]
  cases m with
  | zero => exact hk
  | succ m => simp [furtherRounds, run, hstop, hk]

theorem takes_many {accepts : Char → Bool} {ds rest : List Char} (hds : ∀ d ∈ ds, accepts d = true)
    (hrest : ∀ d ∈ rest.head?, accepts d = false) : Takes (many (char accepts)) ds rest [] := by
  intro before position groups k r hk
  refine furtherRounds_greedy hds hrest ?_ before position groups hk
  simp only [Option.map_none, Option.getD_none, List.length_append]
  omega

theorem takes_blanks_nil {rest : List Char} (h : ∀ d ∈ rest.head?, isBlank d = false) :
    Takes blanks [] rest [] :=
  takes_many nofun h

theorem takes_blanks_space {rest : List Char} (h : ∀ d ∈ rest.head?, isBlank d = false) :
    Takes blanks [' '] rest [] :=
  takes_many (by simp [isBlank]) h

theorem takes_many1 {accepts : Char → Bool} {ds rest : List Char} (hne : ds ≠ [])
    (hds : ∀ d ∈ ds, accepts d = true) (hrest : ∀ d ∈ rest.head?, accepts d = false) :
    Takes (many1 (char accepts)) ds rest [] := by
  intro before position groups k r hk
  obtain ⟨d, ds, rfl⟩ := List.exists_cons_of_ne_nil hne
  have hlen : ds.length ≤ (ds ++ rest).length + 1 := by
    rw [List.length_append]
    omega
  have hk : k ⟨ds.reverse ++ d :: before, rest, position + 1 + ds.length, groups⟩ = some r := by
    simpa [Nat.add_assoc, Nat.add_comm 1] using hk
  have hgreedy := furtherRounds_greedy (fun e he => hds e (List.mem_cons_of_mem _ he)) hrest hlen
    (d :: before) (position + 1) groups hk
  simp only [many1, run, rounds, List.cons_append, Cursor.step?, hds d List.mem_cons_self, if_true,
    Option.bind_some, Option.map_none, Option.getD_none]
  exact hgreedy

theorem takes_blanks1_space {rest : List Char} (h : ∀ d ∈ rest.head?, isBlank d = false) :
    Takes blanks1 [' '] rest [] :=
  takes_many1 (List.cons_ne_nil _ _) (by simp [isBlank]) h

theorem Takes.opt (hp : Takes p cs rest gs) (hne : cs ≠ []) : Takes (opt p) cs rest gs := by
  intro before position groups k r hk
  have hpos : (position + cs.length == position) = false := by simpa using hne
  have hrun := hp before position groups (fun c => if c.position == position then none else k c) r
    (by simp only [hpos, Bool.false_eq_true, if_false, hk])
  exact furtherRounds_succ hrun

theorem takes_opt_nil (hp : Refuses p rest) : Takes (opt p) [] rest [] := by
  intro before position groups k r hk
  simp only [Pattern.opt, run, rounds, Option.map_some, Option.getD_some, furtherRounds,
    List.nil_append, hp before position groups]
  simpa using hk

theorem takes_textEnd : Takes textEnd [] [] [] := by
  intro before position groups k r hk
  simpa [run] using hk

end Rules

/-! ## Searching -/

/-- A pattern that starts nowhere in a text, whatever is put after the text. -/
def Passes (p : Pattern) : List Char → Prop
  | [] => True
  | c :: cs => (∀ rest, Refuses p (c :: (cs ++ rest))) ∧ Passes p cs

section Search

variable {p q : Pattern} {cs ds es rest : List Char} {gs : List (Nat × List Char)}

theorem passes_nil (p : Pattern) : Passes p [] := trivial

theorem Passes.append (hc : Passes p cs) (hd : Passes p ds) : Passes p (cs ++ ds) := by
  induction cs with
  | nil => exact hd
  | cons c cs ih =>
    refine ⟨fun rest => ?_, ih hc.2⟩
    have hrest := hc.1 (ds ++ rest)
    rwa [← List.append_assoc] at hrest

theorem Passes.seq (h : Passes p cs) (q : Pattern) : Passes (p ++ q) cs := by
  induction cs with
  | nil => trivial
  | cons c cs ih => exact ⟨fun rest => (h.1 rest).seq q, ih h.2⟩

theorem passes_lit {s : String} (h : skips s.toList cs = true) : Passes (lit s) cs := by
  induction cs with
  | nil => trivial
  | cons c cs ih =>
    rw [skips, Bool.and_eq_true] at h
    exact ⟨fun rest => refuses_lit (differ_append h.1 rest), ih h.2⟩

theorem passes_of_forall (h : ∀ c ∈ cs, ∀ rest, Refuses p (c :: rest)) : Passes p cs := by
  induction cs with
  | nil => trivial
  | cons c cs ih =>
    exact ⟨fun rest => h c List.mem_cons_self _, ih fun d hd => h d (List.mem_cons_of_mem _ hd)⟩

theorem matchAt?_of_refuses (h : Refuses p cs) (before : List Char) (position : Nat) :
    matchAt? p before position cs = none := by
  rw [matchAt?, h before position []]
  rfl

theorem matchAt?_of_takes (h : Takes p cs rest gs) (before : List Char) (position : Nat) :
    matchAt? p before position (cs ++ rest) = some ⟨before.reverse, cs, rest, gs⟩ := by
  rw [matchAt?, h before position [] some _ rfl]
  simp

theorem searchFrom?_append (h : Passes p cs) (before : List Char) (position : Nat)
    (rest : List Char) : searchFrom? p before position (cs ++ rest) =
      searchFrom? p (cs.reverse ++ before) (position + cs.length) rest := by
  induction cs generalizing before position with
  | nil => rfl
  | cons c cs ih =>
    rw [List.cons_append, searchFrom?, matchAt?_of_refuses (h.1 rest)]
    simp only [ih h.2, List.reverse_cons, List.append_assoc, List.singleton_append,
      List.length_cons, Nat.add_assoc, Nat.add_comm 1]

theorem searchFrom?_of_takes (h : Takes p cs rest gs) (before : List Char) (position : Nat) :
    searchFrom? p before position (cs ++ rest) = some ⟨before.reverse, cs, rest, gs⟩ := by
  have hmatch := matchAt?_of_takes h before position
  cases hcs : cs ++ rest with
  | nil =>
    rw [hcs] at hmatch
    rw [searchFrom?, hmatch]
  | cons d ds =>
    rw [hcs] at hmatch
    rw [searchFrom?, hmatch]

theorem search?_eq_some {s : String} (hs : s.toList = ds ++ (cs ++ rest)) (hd : Passes p ds)
    (h : Takes p cs rest gs) : search? p s = some ⟨ds, cs, rest, gs⟩ := by
  rw [search?, hs, searchFrom?_append hd, searchFrom?_of_takes h]
  simp

theorem searchFrom?_eq_none (h : Passes p cs) (hend : Refuses p []) (before : List Char)
    (position : Nat) : searchFrom? p before position cs = none := by
  have happ := searchFrom?_append h before position []
  rw [List.append_nil] at happ
  rw [happ, searchFrom?, matchAt?_of_refuses hend]

/-- The next of all matches lies behind a text in which the pattern starts nowhere. -/
theorem allFrom_cons (hd : Passes p ds) (h : Takes p cs rest gs) (hne : cs ≠ []) (fuel : Nat)
    (before : List Char) (position : Nat) : ∃ before' position',
      allFrom p (fuel + 1) before position (ds ++ (cs ++ rest)) =
        ⟨before.reverse ++ ds, cs, rest, gs⟩ :: allFrom p fuel before' position' rest := by
  have hempty : cs.isEmpty = false := by simpa using hne
  refine ⟨cs.reverse ++ (before.reverse ++ ds).reverse,
    (before.reverse ++ ds).length + cs.length, ?_⟩
  rw [allFrom, searchFrom?_append hd, searchFrom?_of_takes h]
  simp only [hempty, Bool.false_eq_true, if_false, List.reverse_append, List.reverse_reverse]

theorem allFrom_eq_nil (h : Passes p cs) (hend : Refuses p []) (fuel : Nat) (before : List Char)
    (position : Nat) : allFrom p fuel before position cs = [] := by
  cases fuel with
  | zero => rfl
  | succ fuel => rw [allFrom, searchFrom?_eq_none h hend]

/-! ## Lazy repetitions -/

/-- Rounds are added until what follows them matches. -/
theorem furtherRounds_lazy {groups : List (Nat × List Char)} {k : Next}
    (hk : ∀ c : Cursor, Refuses q c.rest → k c = none) (hd : Passes q ds) {n : Nat}
    (hn : ds.length ≤ n) (before : List Char) (position : Nat) {r : Cursor}
    (hend : k ⟨ds.reverse ++ before, rest, position + ds.length, groups⟩ = some r) :
    furtherRounds false (run any) n ⟨before, ds ++ rest, position, groups⟩ k = some r := by
  induction ds generalizing n before position with
  | nil =>
    have hend : k ⟨before, rest, position, groups⟩ = some r := by simpa using hend
    cases n with
    | zero => exact hend
    | succ n => simp [furtherRounds, hend]
  | cons d ds ih =>
    rw [List.length_cons] at hn
    obtain ⟨n, rfl⟩ : ∃ m, n = m + 1 := ⟨n - 1, by omega⟩
    have hnext := ih hd.2 (by omega : ds.length ≤ n) (d :: before) (position + 1) (by
      simpa [Nat.add_assoc, Nat.add_comm 1] using hend)
    have hstop : k ⟨before, d :: (ds ++ rest), position, groups⟩ = none := hk _ (hd.1 rest)
    have hpos : (position + 1 == position) = false := by simp
    simp only [furtherRounds, List.cons_append, hstop, any, run, Cursor.step?, if_true,
      Option.bind_some, hpos, Bool.false_eq_true, if_false]
    exact hnext

theorem takes_few_until (hd : Passes q ds) (hq : Takes q es rest gs) (i : Nat) :
    Takes (group i (few any) ++ q) (ds ++ es) rest (gs ++ [(i, ds)]) := by
  intro before position groups k r hk
  have hlen : ds.length ≤ (ds ++ (es ++ rest)).length + 1 := by
    rw [List.length_append]
    omega
  rw [List.append_assoc]
  change furtherRounds false (run any) ((ds ++ (es ++ rest)).length + 1) _ (fun c => run q
    ⟨c.before, c.rest, c.position,
    (i, (ds ++ (es ++ rest)).take (c.position - position)) :: c.groups⟩
    k) = some r
  refine furtherRounds_lazy (fun c hc => ?_) hd hlen before position ?_
  · exact hc _ _ _ _
  · refine hq _ _ _ k r ?_
    simpa [Nat.add_assoc] using hk

end Search

/-! ## The start of a text -/

section Start

variable {p q : Pattern} {cs ds rest : List Char} {gs gs' : List (Nat × List Char)}

/-- A pattern whose first match at the start of a text takes some characters and leaves the rest. -/
def Opens (p : Pattern) (cs rest : List Char) (gs : List (Nat × List Char)) : Prop :=
  ∀ k r, k ⟨cs.reverse, rest, cs.length, gs⟩ = some r → run p ⟨[], cs ++ rest, 0, []⟩ k = some r

theorem opens_textStart (rest : List Char) : Opens textStart [] rest [] :=
  fun _ _ hk => hk

theorem Opens.seq (hp : Opens p cs (ds ++ rest) gs) (hq : Takes q ds rest gs') :
    Opens (p ++ q) (cs ++ ds) rest (gs' ++ gs) := by
  intro k r hk
  rw [List.append_assoc]
  refine hp _ r (hq _ _ _ k r ?_)
  simpa using hk

theorem Opens.seq_nil (hp : Opens p cs rest gs) (hq : Takes q [] rest []) :
    Opens (p ++ q) cs rest gs := by
  have h : Opens (p ++ q) (cs ++ []) rest ([] ++ gs) := hp.seq (show Takes q [] rest [] from hq)
  rwa [List.append_nil] at h

/-- The last two parts of a sequence may be taken together. -/
theorem Opens.assoc {r : Pattern} (h : Opens (p ++ (q ++ r)) cs rest gs) :
    Opens (p ++ q ++ r) cs rest gs :=
  fun k result hk => h k result hk

theorem matchStart?_of_opens {s : String} (hs : s.toList = cs ++ rest) (h : Opens p cs rest gs) :
    matchStart? p s = some ⟨[], cs, rest, gs⟩ := by
  rw [matchStart?, matchAt?, hs, h some _ rfl]
  simp

theorem refuses_char {accepts : Char → Bool} (h : ∀ d ∈ cs.head?, accepts d = false) :
    Refuses (char accepts) cs := by
  intro before position groups k
  cases cs with
  | nil => rfl
  | cons c cs => simp [run, Cursor.step?, h c rfl]

theorem Refuses.textStart (h : Refuses p cs) : Refuses (textStart ++ p) cs := by
  intro before position groups k
  change (if before.isEmpty then run p ⟨before, cs, position, groups⟩ k else none) = none
  split_ifs
  · exact h before position groups k
  · rfl

theorem takes_ahead_false (h : Refuses p rest) : Takes (ahead false p) [] rest [] := by
  intro before position groups k r hk
  simpa [run, h before position groups some] using hk

theorem refuses_ahead_false {accepts : Char → Bool} {c : Char} (h : accepts c = true)
    (cs : List Char) :
    Refuses (ahead false (char accepts)) (c :: cs) := by
  intro before position groups k
  simp [run, Cursor.step?, h]

end Start

/-! ## All matches -/

section Leaves

variable {p q : Pattern} {cs : List Char} {R R' : List Char → Prop}

/-- A pattern that leaves only rests with a property, in whichever way it matches. -/
def Leaves (p : Pattern) (cs : List Char) (R : List Char → Prop) : Prop :=
  ∀ before position groups k, (∀ before' rest position' groups', R rest →
    k ⟨before', rest, position', groups'⟩ = none) → run p ⟨before, cs, position, groups⟩ k = none

theorem Leaves.group (hp : Leaves p cs R) (i : Nat) : Leaves (group i p) cs R := by
  intro before position groups k hk
  exact hp before position groups _ fun before' rest position' groups' hrest =>
    hk before' rest position' _ hrest

theorem Leaves.refuses (hp : Leaves p cs R) (hq : ∀ es, R es → Refuses q es) :
    Refuses (p ++ q) cs := by
  intro before position groups k
  refine hp before position groups _ fun before' rest position' groups' hrest => ?_
  exact hq rest hrest before' position' groups' k

theorem leaves_char (accepts : Char → Bool) (cs : List Char) :
    Leaves (char accepts) cs fun es => ∃ c, accepts c = true ∧ cs = c :: es := by
  intro before position groups k hk
  cases cs with
  | nil => rfl
  | cons c cs =>
    by_cases hc : accepts c = true
    · simpa [run, Cursor.step?, hc] using hk _ cs _ _ ⟨c, hc, rfl⟩
    · simp [run, Cursor.step?, hc]

/-- Further rounds do not lead to success if they do not wherever they stop. -/
theorem furtherRounds_eq_none {accepts : Char → Bool} {k : Next} (n : Nat) {cs : List Char}
    {before : List Char} {position : Nat} {groups : List (Nat × List Char)}
    (hk : ∀ before' rest position' groups', (∃ ds, cs = ds ++ rest ∧ ∀ d ∈ ds, accepts d = true) →
      k ⟨before', rest, position', groups'⟩ = none) :
    furtherRounds true (run (char accepts)) n ⟨before, cs, position, groups⟩ k = none := by
  induction n generalizing cs before position groups with
  | zero => exact hk _ cs _ _ ⟨[], rfl, by simp⟩
  | succ n ih =>
    have hstop : k ⟨before, cs, position, groups⟩ = none := hk _ cs _ _ ⟨[], rfl, by simp⟩
    have hround : run (char accepts) ⟨before, cs, position, groups⟩ (fun c' =>
        if c'.position == position then none
        else furtherRounds true (run (char accepts)) n c' k) = none := by
      refine leaves_char accepts cs before position groups _ ?_
      rintro before' rest position' groups' ⟨c, hc, rfl⟩
      have hnext : furtherRounds true (run (char accepts)) n ⟨before', rest, position', groups'⟩ k =
          none :=
        ih fun b es pos gs ⟨ds, hrest, hds⟩ =>
          hk b es pos gs
            ⟨c :: ds, by rw [hrest, List.cons_append], List.forall_mem_cons.2 ⟨hc, hds⟩⟩
      simp only [hnext, ite_self]
    simp only [furtherRounds, if_true, hround, hstop]

/-- A repetition stops behind some characters of its class. -/
theorem leaves_many (accepts : Char → Bool) (cs : List Char) :
    Leaves (many (char accepts)) cs fun es =>
      ∃ ds, cs = ds ++ es ∧ ∀ d ∈ ds, accepts d = true :=
  fun _ _ _ _ hk => furtherRounds_eq_none _ hk

/-- An exact number of characters is left out. -/
theorem leaves_exactly (accepts : Char → Bool) (n : Nat) (cs : List Char) :
    Leaves (exactly n (char accepts)) cs fun es => es.length + n = cs.length := by
  intro before position groups k hk
  have key : ∀ n cs before position groups, (∀ before' rest position' groups',
      rest.length + n = cs.length → k ⟨before', rest, position', groups'⟩ = none) →
      rounds (run (char accepts)) n ⟨before, cs, position, groups⟩ k = none := by
    intro n
    induction n with
    | zero => exact fun cs before position groups hk => hk _ cs _ _ rfl
    | succ n ih =>
      intro cs before position groups hk
      refine leaves_char accepts cs before position groups _ ?_
      rintro before' rest position' groups' ⟨c, -, rfl⟩
      exact ih rest before' position' groups' fun b es pos gs hlen =>
        hk b es pos gs (by simp [← hlen, Nat.add_assoc])
  have hrounds := key n cs before position groups hk
  simpa [exactly, run, furtherRounds] using hrounds

theorem refuses_textEnd (h : 2 ≤ cs.length) : Refuses textEnd cs := by
  intro before position groups k
  rw [run]
  split
  · next heq => simp [show cs = [] from heq] at h
  · next heq => simp [show cs = ['\n'] from heq] at h
  · rfl

end Leaves

/-! ## Choices that depend on what follows -/

section Choices

variable {p r : Pattern} {q : Unit → Pattern} {cs ds es rest : List Char}
    {gs : List (Nat × List Char)}

theorem takes_exactly {accepts : Char → Bool} (h : ∀ d ∈ ds, accepts d = true) {n : Nat}
    (hn : ds.length = n) (rest : List Char) : Takes (exactly n (char accepts)) ds rest [] := by
  intro before position groups k r hk
  have key : rounds (run (char accepts)) n ⟨before, ds ++ rest, position, groups⟩ k = some r := by
    induction ds generalizing n before position with
    | nil =>
      subst hn
      simpa [rounds] using hk
    | cons d ds ih =>
      subst hn
      obtain ⟨hd, hds⟩ := List.forall_mem_cons.1 h
      have hrest :=
        ih hds rfl (d :: before) (position + 1) (by simpa [Nat.add_assoc, Nat.add_comm 1] using hk)
      simpa [rounds, run, Cursor.step?, hd] using hrest
  simpa [exactly, run, furtherRounds] using key

/-- The second alternative is taken where the first one does not let the rest match. -/
theorem takes_group_orElse {i : Nat} (hp : Refuses (group i p ++ r) (cs ++ rest))
    (hq : Takes (group i (q ()) ++ r) cs rest gs) :
    Takes (group i (HOrElse.hOrElse p q) ++ r) cs rest gs := by
  intro before position groups k result hk
  have hnone := hp before position groups k
  have hsome := hq before position groups k result hk
  change run p _ _ = none at hnone
  change run (HOrElse.hOrElse p q) _ _ = some result
  rw [run_orElse]
  exact (congrArg (Option.or · _) hnone).trans hsome

/-- Rounds are made up to the last place from which what follows succeeds. -/
theorem furtherRounds_last {accepts : Char → Bool} {next : Next} {result : Cursor}
    {groups : List (Nat × List Char)} (hds : ∀ d ∈ ds, accepts d = true)
    (hlater : ∀ before' fs position' groups', fs.length < rest.length →
      next ⟨before', fs, position', groups'⟩ = none)
    {n : Nat} (hn : ds.length ≤ n) (before : List Char) (position : Nat)
    (hstop : next ⟨ds.reverse ++ before, rest, position + ds.length, groups⟩ = some result) :
    furtherRounds true (run (char accepts)) n ⟨before, ds ++ rest, position, groups⟩ next =
      some result := by
  refine furtherRounds_through hds hn _ _ _ fun m => ?_
  cases m with
  | zero => exact hstop
  | succ m =>
    have hagain : run (char accepts) ⟨ds.reverse ++ before, rest, position + ds.length, groups⟩
        (fun c' => if c'.position == position + ds.length then none
          else furtherRounds true (run (char accepts)) m c' next) = none := by
      refine leaves_char accepts _ _ _ _ _ ?_
      rintro before' rest' position' groups' ⟨c, -, hc⟩
      have hnone : furtherRounds true (run (char accepts)) m ⟨before', rest', position',
          groups'⟩ next = none :=
        furtherRounds_eq_none m fun b fs pos gs ⟨as, has, _⟩ => hlater b fs pos gs (by
          rw [hc, has, List.length_cons, List.length_append]
          omega)
      simp only [hnone, ite_self]
    simp only [furtherRounds, if_true, hagain, hstop]

/-- A repetition goes on up to the last place from which the rest of the pattern matches. -/
theorem takes_many_last {accepts : Char → Bool} (hds : ∀ d ∈ ds, accepts d = true)
    (hr : Takes r es rest gs) (hlater : ∀ fs, fs.length < (es ++ rest).length → Refuses r fs)
    (i : Nat) :
    Takes (group i (many (char accepts)) ++ r) (ds ++ es) rest (gs ++ [(i, ds)]) := by
  intro before position groups k result hk
  -- what follows the repetition, with the group that it keeps
  let next : Next := fun c => run r
    { c with groups := (i, (ds ++ (es ++ rest)).take (c.position - position)) :: c.groups } k
  have hstop : next ⟨ds.reverse ++ before, es ++ rest, position + ds.length, groups⟩ =
      some result := by
    simp only [next, Nat.add_sub_cancel_left, List.take_left]
    refine hr _ _ _ k result ?_
    simpa [Nat.add_assoc] using hk
  have hrounds :=
    furtherRounds_last hds (fun before' fs position' groups' hfs => hlater fs hfs _ _ _ k)
    (show ds.length ≤ (ds ++ (es ++ rest)).length + 1 by simp; omega) before position hstop
  rw [List.append_assoc]
  exact hrounds

theorem takes_many1_last {accepts : Char → Bool} (hds : ∀ d ∈ ds, accepts d = true) (hne : ds ≠ [])
    (hr : Takes r es rest gs) (hlater : ∀ fs, fs.length < (es ++ rest).length → Refuses r fs)
    (i : Nat) :
    Takes (group i (many1 (char accepts)) ++ r) (ds ++ es) rest (gs ++ [(i, ds)]) := by
  intro before position groups k result hk
  obtain ⟨d, ds, rfl⟩ := List.exists_cons_of_ne_nil hne
  obtain ⟨hd, hds⟩ := List.forall_mem_cons.1 hds
  let next : Next := fun c => run r
    { c with groups := (i, (d :: (ds ++ (es ++ rest))).take (c.position - position)) :: c.groups } k
  have hstop : next ⟨ds.reverse ++ d :: before, es ++ rest, position + 1 + ds.length, groups⟩ =
      some result := by
    have htaken : (d :: (ds ++ (es ++ rest))).take (position + 1 + ds.length - position) =
        d :: ds := by
      rw [show position + 1 + ds.length - position = (d :: ds).length by simp; omega,
        ← List.cons_append, List.take_left]
    simp only [next, htaken]
    refine hr _ _ _ k result ?_
    simpa [Nat.add_assoc, Nat.add_comm 1, Nat.add_left_comm] using hk
  have hrounds :=
    furtherRounds_last hds (fun before' fs position' groups' hfs => hlater fs hfs _ _ _ k)
    (show ds.length ≤ (ds ++ (es ++ rest)).length + 1 by simp; omega) (d :: before)
      (position + 1) hstop
  change rounds (run (char accepts)) 1 _ _ = some result
  simp only [rounds, run, Cursor.step?, List.cons_append, hd, if_true, Option.bind_some,
    Option.map_none, Option.getD_none, List.append_assoc]
  exact hrounds

end Choices

end WidgetBridge.Text.Pattern
