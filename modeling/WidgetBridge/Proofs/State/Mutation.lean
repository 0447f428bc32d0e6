import WidgetBridge.Proofs.State.Update
import WidgetBridge.Proofs.WidgetGrammar.Boundary

/-!
# Assignments as mutations

An assignment to a name is split into the name and its value (`splitAssignment_assign`), and as a
statement it is kept as it is (`normalizeMutation_assign`).  The name of a function that sets a
state is a name that differs from the name of the state.
-/

namespace WidgetBridge.State

open WidgetBridge.Text WidgetBridge.WidgetGrammar

theorem isIdent_of_isName {name : String} (h : isName name = true) : IsIdent name := by
  obtain ⟨c, cs, hs, hc, hcs⟩ := isName_iff.1 h
  exact ⟨c, cs, hs, hc, fun d hd => isNamePart_of_isNameChar (hcs d hd)⟩

/-! ## Assignments -/

section Assignment

variable {name value : String}

/-- A text that starts with a name is trimmed if its end is. -/
theorem IsIdent.isTrimmed_append (hn : IsIdent name) (gap : String) {last : String}
    (hne : last ≠ "") (hlast : ∀ c ∈ last.toList.getLast?, isBlank c = false) :
    IsTrimmed (name ++ gap ++ last) := by
  obtain ⟨c, cs, hs, hc, -⟩ := hn
  have hlist : last.toList ≠ [] := by simpa using hne
  have htext : (name ++ gap ++ last).toList = c :: (cs ++ gap.toList) ++ last.toList := by
    rw [String.toList_append, String.toList_append, hs, List.cons_append]
  refine ⟨?_, ?_⟩
  · rw [← String.toList_inj.ne, htext]
    exact List.append_ne_nil_of_right_ne_nil _ hlist
  · rw [trim, trimChars_of_ends, String.ofList_toList]
    · rw [htext]
      rintro d ⟨⟩
      exact not_isBlank_of_isNameStart hc
    · rwa [htext, List.getLast?_append_of_ne_nil _ hlist]

/-- The value of an assignment stands behind a space. -/
theorem trim_space (h : IsTrimmed value) : trim (String.ofList (' ' :: value.toList)) = value := by
  rw [← trim_dropWhile, List.dropWhile_cons_of_pos (by decide), trim_dropWhile,
    String.ofList_toList, h.trim_eq]

theorem forall_isBlank_space : ∀ c ∈ [' '], isBlank c = true :=
  forall_mem_of_all (by decide)

theorem isMutation_assign (hn : IsIdent name) (h : IsTrimmed value) :
    IsMutation name (assign name value).toList value := by
  obtain ⟨c, hc, hb⟩ := h.exists_not_isBlank
  have hupdate : Update name ('=' :: ' ' :: value.toList)
      (trim (String.ofList (' ' :: value.toList))) :=
    .plain (by rintro d ⟨⟩; decide) ⟨c, List.mem_cons_of_mem _ hc, hb⟩
  rw [trim_space h] at hupdate
  rw [toList_assign]
  exact .assigned hn forall_isBlank_space hupdate

/-- An assignment is split into its name and its value. -/
theorem splitAssignment_assign (hn : IsIdent name) (h : IsTrimmed value) :
    splitAssignment (assign name value) = some (name, value) := by
  have htrim : trim (assign name value) = assign name value :=
    (hn.isTrimmed_append " = " h.ne_empty h.not_isBlank_last).trim_eq
  obtain ⟨c, hc, hb⟩ := h.exists_not_isBlank
  obtain ⟨m, hm, hname, hvalue⟩ := assignment_matchStart? hn forall_isBlank_space
    (by rintro d ⟨⟩; decide) ⟨c, List.mem_cons_of_mem _ hc, hb⟩ (toList_assign name value)
  unfold splitAssignment
  rw [htrim, hm]
  simp only [Option.map_some, hname, hvalue, trim_dropWhile, trim_space h]

/-- A text that can be assigned: it starts and ends with no blank, and ends with no semicolon. -/
structure Assignable (value : String) : Prop where
  ne_empty : value ≠ ""
  first : ∀ c ∈ value.toList.head?, isBlank c = false
  last : ∀ c ∈ value.toList.getLast?, isBlank c = false ∧ c ≠ ';'

theorem Assignable.trim_eq (h : Assignable value) : trim value = value := by
  rw [trim, trimChars_of_ends h.first fun c hc => (h.last c hc).1, String.ofList_toList]

theorem Assignable.isTrimmed (h : Assignable value) : IsTrimmed value := ⟨h.ne_empty, h.trim_eq⟩

theorem Assignable.assign (h : Assignable value) (hn : IsIdent name) :
    Assignable (assign name value) := by
  obtain ⟨c, cs, hs, hc, -⟩ := hn
  have hne : value.toList ≠ [] := by simpa using h.ne_empty
  refine ⟨?_, ?_, ?_⟩
  · rw [← String.toList_inj.ne, toList_assign, hs]
    nofun
  · rw [toList_assign, hs]
    rintro d ⟨⟩
    exact not_isBlank_of_isNameChar (isNameChar_of_isNameStart hc)
  · rw [toList_assign]
    simpa [List.getLast?_append, List.getLast?_cons, List.getLast?_eq_some_getLast hne] using h.last

/-- A statement is trimmed of its semicolon. -/
theorem Assignable.trim_statement (h : Assignable value) :
    trim (trimEndChar ';' (trim (value ++ ";"))) = value := by
  have hne : value.toList ≠ [] := by simpa using h.ne_empty
  have hstatement : trim (value ++ ";") = value ++ ";" := by
    have hends : trimChars (value ++ ";").toList = (value ++ ";").toList := by
      rw [String.toList_append]
      refine trimChars_of_ends ?_ (by simp; decide)
      rw [List.head?_append_of_ne_nil _ hne]
      exact h.first
    rw [trim, hends, String.ofList_toList]
  have hlast : dropEndWhile (· == ';') value.toList = value.toList := by
    have hrev : ∀ c ∈ value.toList.reverse.head?, (c == ';') = false := by
      rw [List.head?_reverse]
      exact fun c hc => by simpa using (h.last c hc).2
    cases hcs : value.toList.reverse with
    | nil => simp [hne] at hcs
    | cons c cs =>
      rw [dropEndWhile, hcs, List.dropWhile_cons_of_neg (by simp [hrev c (by simp [hcs])]), ← hcs,
        List.reverse_reverse]
  have hdrop : trimEndChar ';' (value ++ ";") = value := by
    rw [trimEndChar, String.toList_append, dropEndWhile]
    simp only [String.reduceToList, List.reverse_append, List.reverse_cons, List.reverse_nil,
      List.nil_append, List.cons_append, beq_self_eq_true, List.dropWhile_cons_of_pos]
    rw [← dropEndWhile, hlast, String.ofList_toList]
  rw [hstatement, hdrop, h.trim_eq]

/-- An assignment is a mutation as it stands, without its semicolon. -/
theorem normalizeMutation_assign (hn : isName name = true) (h : Assignable value) :
    normalizeMutation (assign name value ++ ";") = some (name, assign name value) := by
  have hident := isIdent_of_isName hn
  refine normalizeMutation_of_isMutation ?_
  rw [statementText, (h.assign hident).trim_statement]
  exact isMutation_assign hident h.isTrimmed

/-- An assignment to a name assigns its value. -/
theorem assignedTo?_assign (hn : IsIdent name) (h : Assignable value) :
    assignedTo? name (assign name value) = some value := by
  unfold assignedTo?
  rw [splitAssignment_assign hn h.isTrimmed]
  simp

end Assignment

/-! ## Setters -/

/-- The capital of a character of a name is one character of a name. -/
theorem upperChar_of_isNameChar {c : Char} (h : isNameChar c = true) :
    ∃ d, upperChar c = [d] ∧ isNameChar d = true := by
  have hrange := h
  simp only [isNameChar, Bool.or_eq_true, isNameStart_iff, isDigit_iff] at hrange
  have hlt : c.toNat < 128 := by omega
  simp only [upperChar, hlt, if_true]
  refine ⟨_, rfl, ?_⟩
  split_ifs with hlower
  · simp only [Bool.and_eq_true, decide_eq_true_eq, Char.le_def, UInt32.le_iff_toNat_le] at hlower
    have hvalid : (c.toNat - 32).isValidChar := Or.inl (by omega)
    have hupper : (Char.ofNat (c.toNat - 32)).toNat = c.toNat - 32 := by
      rw [Char.ofNat, dif_pos hvalid]
      exact UInt32.toNat_ofNatLT
    simp only [isNameChar, Bool.or_eq_true, isNameStart_iff, hupper]
    have hbounds : 97 ≤ c.toNat ∧ c.toNat ≤ 122 := hlower
    omega
  · exact h

theorem exists_capitalizeFirst {s : String} (h : ∀ c ∈ s.toList, isNameChar c = true) :
    (∀ c ∈ (capitalizeFirst s).toList, isNameChar c = true) ∧
      (capitalizeFirst s).toList.length = s.toList.length := by
  unfold capitalizeFirst
  cases hs : s.toList with
  | nil => simp
  | cons c cs =>
    rw [hs] at h
    obtain ⟨d, hd, hname⟩ := upperChar_of_isNameChar (h c List.mem_cons_self)
    simp only [hd, List.singleton_append, String.toList_ofList]
    exact ⟨List.forall_mem_cons.2 ⟨hname, fun e he => h e (List.mem_cons_of_mem _ he)⟩, by simp⟩

theorem toList_setterName (name : String) : (setterName name).toList =
    name.toList.takeWhile (· == '_') ++ ("set".toList ++
      (capitalizeFirst (String.ofList (name.toList.dropWhile (· == '_')))).toList) := by
  simp [setterName, splitLead]

variable {name : String}

theorem capital_core (hn : isName name = true) :
    let core := capitalizeFirst (String.ofList (name.toList.dropWhile (· == '_')))
    (∀ c ∈ core.toList, isNameChar c = true) ∧
      core.toList.length = (name.toList.dropWhile (· == '_')).length := by
  have h := exists_capitalizeFirst (s := String.ofList (name.toList.dropWhile (· == '_'))) (by
    rw [String.toList_ofList]
    exact fun c hc => isNameChar_of_isName hn ((List.dropWhile_suffix _).subset hc))
  rwa [String.toList_ofList] at h

theorem isName_setterName (hn : isName name = true) : isName (setterName name) = true := by
  have hcore := (capital_core hn).1
  rw [isName_iff, toList_setterName]
  cases hlead : name.toList.takeWhile (· == '_') with
  | nil =>
    refine ⟨'s', _, rfl, by decide, ?_⟩
    intro d hd
    rcases List.mem_append.1 (show d ∈ ['e', 't'] ++ _ from hd) with hd | hd
    · exact forall_mem_of_all (p := fun c => isNameChar c = true) (by decide) d hd
    · exact hcore d hd
  | cons c cs =>
    have hall : ∀ d ∈ c :: cs, d = '_' := by
      intro d hd
      rw [← hlead] at hd
      simpa using List.mem_takeWhile_imp hd
    refine ⟨c, _, rfl, by rw [hall c List.mem_cons_self]; decide, ?_⟩
    intro d hd
    rcases List.mem_append.1 hd with hd | hd
    · rw [hall d (List.mem_cons_of_mem _ hd)]
      decide
    · rcases List.mem_append.1 hd with hd | hd
      · exact forall_mem_of_all (p := fun c => isNameChar c = true) (by decide) d hd
      · exact hcore d hd

/-- A setter has three characters more than its state. -/
theorem setterName_ne (hn : isName name = true) : setterName name ≠ name := by
  intro heq
  have hlen := congrArg (fun s : String => s.toList.length) heq
  have hsplit :=
    congrArg List.length (List.takeWhile_append_dropWhile (p := (· == '_')) (l := name.toList))
  rw [List.length_append] at hsplit
  simp only [toList_setterName, List.length_append, (capital_core hn).2] at hlen
  have hset : "set".toList.length = 3 := rfl
  omega

end WidgetBridge.State
