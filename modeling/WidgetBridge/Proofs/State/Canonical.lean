import WidgetBridge.Proofs.State.Mutation

/-!
# Canonical mutations

What `normalizeMutation` keeps of a statement is read back by `splitAssignment` as the name and a
trimmed value, and it is written as an assignment of this value.  A statement that compares first,
or whose first operator is the arrow of a function, is not kept (`normalizeMutation_canonical`).

`FirstOperator op cs` says that `op` is the first operator of the text `cs`.  Behind the name of an
assignment stands an operator that changes this name, and only blanks can stand between them, so
that no comparison comes first.
-/

namespace WidgetBridge.State

open WidgetBridge.Text

/-! ## First operators -/

/-- The comparisons, and the arrow of functions. -/
def comparisons : List String := ["==", "!=", "<=", ">=", "=>"]

/-- The operators of assignments with an operator in them. -/
def compoundAssignments : List String := compoundOperators.map (· ++ "=")

/-- The operators that change a name. -/
def changes : List String := stepSigns ++ compoundAssignments ++ ["="]

/-- The operator that stands at the start of a text.  The sign of equality is looked for last, since
other operators start with it. -/
def operatorAt? (cs : List Char) : Option String :=
  (comparisons ++ changes).find? fun op => (dropHead? op.toList cs).isSome

/-- The marks around comments, quoted texts and brackets. -/
def enclosures : List (String × String) :=
  [("/*", "*/"), ("//", "\n"), ("'", "'"), ("\"", "\""), ("`", "`"), ("(", ")"), ("[", "]"),
  ("\x7b", "\x7d")]

/-- The first operator of a text.  Signs that neither change a name nor compare are passed over, and
so may be what stands within comments, quoted texts and brackets. -/
inductive FirstOperator (op : String) : List Char → Prop
  | here {cs : List Char} (h : operatorAt? cs = some op) : FirstOperator op cs
  | skip {c : Char} {cs : List Char} (h : operatorAt? (c :: cs) = none)
      (hrest : FirstOperator op cs) :
      FirstOperator op (c :: cs)
  | enclosed {marks : String × String} {rest : List Char} (hmarks : marks ∈ enclosures)
      (body : List Char)
      (hrest : FirstOperator op rest) : FirstOperator op
        (marks.1.toList ++ (body ++ (marks.2.toList ++ rest)))

/-- What stands behind the first name of a text. -/
def behindName (cs : List Char) : List Char :=
  (cs.dropWhile fun c => !isNamePart c).dropWhile isNamePart

section Operators

variable {op p name value : String} {cs gap : List Char}

theorem exists_of_operatorAt? (h : operatorAt? cs = some op) :
    op ∈ comparisons ++ changes ∧ ∃ rest, cs = op.toList ++ rest := by
  have hsome : (dropHead? op.toList cs).isSome = true :=
    List.find?_some (p := fun op : String => (dropHead? op.toList cs).isSome) h
  obtain ⟨rest, hrest⟩ := Option.isSome_iff_exists.1 hsome
  exact ⟨List.mem_of_find?_eq_some h, rest, dropHead?_eq_some_iff.1 hrest⟩

theorem operatorAt?_of_differ (h : ∀ op ∈ comparisons ++ changes, differ op.toList cs = true)
    (rest : List Char) :
    operatorAt? (cs ++ rest) = none := by
  refine Option.eq_none_iff_forall_ne_some.2 fun op hop => ?_
  obtain ⟨hmem, rest', hrest⟩ := exists_of_operatorAt? hop
  have hne := append_ne_of_differ (differ_append (h op hmem) rest) rest' []
  rw [List.append_nil] at hne
  exact hne hrest.symm

/-- An operator is found if no other one can start where it stands. -/
theorem operatorAt?_append (hop : op ∈ comparisons ++ changes)
    (hapart : ∀ p ∈ comparisons ++ changes, p ≠ op → differ p.toList op.toList = true)
    (rest : List Char) :
    operatorAt? (op.toList ++ rest) = some op := by
  have hsome : (operatorAt? (op.toList ++ rest)).isSome = true :=
    List.find?_isSome.2 ⟨op, hop, by rw [dropHead?_append]; rfl⟩
  obtain ⟨p, hp⟩ := Option.isSome_iff_exists.1 hsome
  obtain ⟨hmem, rest', hrest⟩ := exists_of_operatorAt? hp
  by_cases hne : p = op
  · rw [hp, hne]
  · have hdiffer := append_ne_of_differ (differ_append (hapart p hmem hne) rest) rest' []
    rw [List.append_nil] at hdiffer
    exact absurd hrest.symm hdiffer

theorem operatorAt?_enclosure {marks : String × String} (hmarks : marks ∈ enclosures)
    (rest : List Char) :
    operatorAt? (marks.1.toList ++ rest) = none := by
  have hall : ∀ marks ∈ enclosures, ∀ op ∈ comparisons ++ changes,
      differ op.toList marks.1.toList = true := by
    decide
  exact operatorAt?_of_differ (hall marks hmarks) rest

theorem operatorAt?_blank {c : Char} (hc : isBlank c = true) (cs : List Char) :
    operatorAt? (c :: cs) = none := by
  refine Option.eq_none_iff_forall_ne_some.2 fun op hop => ?_
  obtain ⟨hmem, rest, hrest⟩ := exists_of_operatorAt? hop
  obtain ⟨d, ds, hd, hb⟩ := exists_head_of_all (p := fun c => !isBlank c) (by decide) hmem rest
  rw [hd, List.cons.injEq] at hrest
  rw [← hrest.1, hc] at hb
  cases hb

/-- An assignment starts with the operator that changes the name, whatever follows it. -/
theorem Update.operatorAt? (h : Update name cs value) (rest : List Char) :
    ∃ op ∈ changes, operatorAt? (cs ++ rest) = some op := by
  cases h with
  | @compound op operand hop _ =>
    have hapart : ∀ op ∈ compoundAssignments, ∀ p ∈ comparisons ++ changes, p ≠ op →
        differ p.toList op.toList = true := by decide
    have hmem : op ++ "=" ∈ compoundAssignments := List.mem_map_of_mem hop
    have hchange : op ++ "=" ∈ changes := List.mem_append_left _ (List.mem_append_right _ hmem)
    have htext : op.toList ++ '=' :: operand ++ rest = (op ++ "=").toList ++ (operand ++ rest) := by
      simp
    rw [htext]
    exact ⟨_, hchange, operatorAt?_append (List.mem_append_right _ hchange) (hapart _ hmem) _⟩
  | @plain value hnext hvalue =>
    obtain ⟨c, hc, -⟩ := hvalue
    obtain ⟨d, ds, rfl⟩ := List.exists_cons_of_ne_nil (List.ne_nil_of_mem hc)
    -- the sign of equality starts no longer operator
    obtain ⟨hequal, harrow⟩ := hnext d rfl
    refine ⟨"=", List.mem_append_right _ (List.mem_singleton_self _), ?_⟩
    simp [State.operatorAt?, comparisons, changes, stepSigns, compoundAssignments,
      compoundOperators, dropHead?, hequal.symm, harrow.symm]

theorem FirstOperator.eq_of_operatorAt? (h : FirstOperator op cs) (hp : operatorAt? cs = some p) :
    op = p := by
  cases h with
  | here h => exact Option.some.inj (h.symm.trans hp)
  | skip h _ => cases h.symm.trans hp
  | enclosed hmarks => cases (operatorAt?_enclosure hmarks _).symm.trans hp

theorem FirstOperator.drop_blank {c : Char} (h : FirstOperator op (c :: cs))
    (hc : isBlank c = true) :
    FirstOperator op cs := by
  generalize hds : c :: cs = ds at h
  cases h with
  | here h =>
    rw [← hds, operatorAt?_blank hc] at h
    cases h
  | skip _ hrest =>
    cases hds
    exact hrest
  | @enclosed marks rest hmarks body =>
    have hopen : marks.1 ∈ enclosures.map (·.1) := List.mem_map_of_mem hmarks
    obtain ⟨d, es, hd, hb⟩ := exists_head_of_all (p := fun c => !isBlank c) (by decide) hopen
      (body ++ (marks.2.toList ++ rest))
    rw [hd, List.cons.injEq] at hds
    rw [← hds.1, hc] at hb
    cases hb

theorem FirstOperator.drop_gap (h : FirstOperator op (gap ++ cs))
    (hgap : ∀ c ∈ gap, isBlank c = true) :
    FirstOperator op cs := by
  induction gap with
  | nil => exact h
  | cons c gap ih =>
    obtain ⟨hc, hgap⟩ := List.forall_mem_cons.1 hgap
    exact ih (h.drop_blank hc) hgap

/-- Comparisons and arrows are written with a sign of equality. -/
theorem FirstOperator.equal_mem (h : FirstOperator op cs) (hop : op ∈ comparisons) : '=' ∈ cs := by
  induction h with
  | here h =>
    have hequal : ∀ op ∈ comparisons, '=' ∈ op.toList := by decide
    obtain ⟨-, rest, rfl⟩ := exists_of_operatorAt? h
    exact List.mem_append_left _ (hequal op hop)
  | skip _ _ ih => exact List.mem_cons_of_mem _ ih
  | enclosed _ _ _ ih =>
    exact List.mem_append_right _ (List.mem_append_right _ (List.mem_append_right _ ih))

end Operators

/-! ## Statements and their texts -/

section Statements

variable {name value s : String} {cs gap : List Char}

/-- In front of the text of a statement only blanks are dropped. -/
theorem exists_statementText (s : String) :
    ∃ lead rest, s.toList = lead ++ ((statementText s).toList ++ rest) ∧
    ∀ c ∈ lead, isBlank c = true := by
  have htext : (statementText s).toList =
      trimChars (dropEndWhile (· == ';') (trimChars s.toList)) := by
    simp only [statementText, trim, trimEndChar, String.toList_ofList]
  have hprefix := isPrefix_dropEndWhile (· == ';') (trimChars s.toList)
  have hstart : trimStartChars (dropEndWhile (· == ';') (trimChars s.toList)) =
      dropEndWhile (· == ';') (trimChars s.toList) := by
    cases hcs : dropEndWhile (· == ';') (trimChars s.toList) with
    | nil => rfl
    | cons c cs =>
      obtain ⟨ds, hds⟩ := hprefix
      have hhead : c ∈ (trimChars s.toList).head? := by
        rw [← hds, hcs]
        rfl
      simp [trimStartChars, not_isBlank_of_head?_trimChars hhead]
  have hinner := isPrefix_trimChars (dropEndWhile (· == ';') (trimChars s.toList))
  rw [hstart, ← htext] at hinner
  obtain ⟨rest, hrest⟩ := (hinner.trans hprefix).trans (isPrefix_trimChars s.toList)
  refine ⟨s.toList.takeWhile isBlank, rest, ?_, fun c hc => List.mem_takeWhile_imp hc⟩
  rw [hrest, trimStartChars, List.takeWhile_append_dropWhile]

/-- Nothing but blanks and semicolons is dropped. -/
theorem mem_statementText {c : Char} (h : c ∈ s.toList) (hb : isBlank c = false) (hsemi : c ≠ ';') :
    c ∈ (statementText s).toList := by
  simp only [statementText, trim, trimEndChar, String.toList_ofList]
  exact mem_trimChars (mem_dropEndWhile (mem_trimChars h hb) (by simpa using hsemi)) hb

theorem behindName_of_name (hn : IsIdent name) (hgap : ∀ c ∈ gap, isBlank c = true)
    {lead : List Char} (hlead : ∀ c ∈ lead, isBlank c = true) {c : Char} (hc : isSign c = true)
    (ds : List Char) :
    behindName (lead ++ (name.toList ++ (gap ++ c :: ds))) = gap ++ c :: ds := by
  have hname : (lead ++ (name.toList ++ (gap ++ c :: ds))).dropWhile (fun c => !isNamePart c) =
      name.toList ++ (gap ++ c :: ds) := by
    refine dropWhile_append_of_all
      (fun d hd => by rw [not_isNamePart_of_isBlank (hlead d hd)]; rfl) ?_
    obtain ⟨d, es, hs, hd, -⟩ := hn
    rw [hs]
    rintro e ⟨⟩
    rw [isNamePart_of_isNameStart hd]
    rfl
  rw [behindName, hname,
    dropWhile_append_of_all hn.isNameWord.parts (not_isNamePart_of_gap hgap hc ds)]

theorem normalizeMutation_eq_none {op : String} (hop : op ∈ comparisons)
    (hfirst : FirstOperator op (behindName s.toList)) : normalizeMutation s = none := by
  refine Option.eq_none_iff_forall_ne_some.2 fun r hr => ?_
  obtain ⟨name, value, hmutation⟩ := exists_isMutation (by rw [hr]; rfl)
  have hequal : '=' ∈ (statementText s).toList := by
    have hbehind : behindName s.toList ⊆ s.toList :=
      ((List.dropWhile_suffix _).trans (List.dropWhile_suffix _)).subset
    exact mem_statementText (hbehind (hfirst.equal_mem hop)) (by decide) (by decide)
  obtain ⟨lead, rest, hs, hlead⟩ := exists_statementText s
  generalize (statementText s).toList = text at hmutation hs hequal
  cases hmutation with
  | stepped h => exact h.equal_not_mem hequal
  | @assigned gap cs _ hn hgap h =>
    obtain ⟨p, hchange, hp⟩ := h.operatorAt? rest
    obtain ⟨c, ds, rfl, hc⟩ := h.exists_head
    have hbehind : behindName s.toList = gap ++ (c :: ds ++ rest) := by
      rw [hs, List.append_assoc, List.append_assoc]
      exact behindName_of_name hn hgap hlead hc (ds ++ rest)
    rw [hbehind] at hfirst
    obtain rfl := (hfirst.drop_gap hgap).eq_of_operatorAt? hp
    have hapart : ∀ op ∈ comparisons, op ∉ changes := by decide
    exact hapart op hop hchange

/-! ## Canonical form -/

theorem operandText_last (h : IsTrimmed value) :
    operandText value ≠ "" ∧ ∀ c ∈ (operandText value).toList.getLast?, isBlank c = false := by
  unfold operandText
  split_ifs
  · exact ⟨h.ne_empty, h.not_isBlank_last⟩
  · have hclose : ("(" ++ value ++ ")").toList = "(".toList ++ value.toList ++ [')'] := by simp
    rw [← String.toList_inj.ne, hclose, List.getLast?_concat]
    refine ⟨by simp, ?_⟩
    rintro c ⟨⟩
    decide

theorem Update.isTrimmed (h : Update name cs value) (hn : IsIdent name) : IsTrimmed value := by
  cases h with
  | @compound op operand _ hoperand =>
    obtain ⟨hne, hlast⟩ := operandText_last (isTrimmed_trim hoperand)
    have htrimmed := hn.isTrimmed_append (" " ++ op ++ " ") hne hlast
    simpa only [String.append_assoc] using htrimmed
  | plain _ hvalue => exact isTrimmed_trim hvalue

/-- A name gets a trimmed value. -/
theorem IsMutation.isTrimmed (h : IsMutation name cs value) : IsIdent name ∧ IsTrimmed value := by
  cases h with
  | @stepped sign _ h =>
    have hone : ∀ c ∈ " 1".toList.getLast?, isBlank c = false := by
      rintro c ⟨⟩
      decide
    have htrimmed := h.isIdent.isTrimmed_append (" " ++ take sign 1) (by decide) hone
    refine ⟨h.isIdent, ?_⟩
    simpa only [steppedValue, String.append_assoc] using htrimmed
  | assigned hn _ h => exact ⟨hn, h.isTrimmed hn⟩

/-- What is kept of a statement is read back as its name and a trimmed value.  Nothing is kept of a
statement that compares first. -/
theorem normalizeMutation_canonical (s : String) :
    (∀ name m, normalizeMutation s = some (name, m) → ∃ rhs, splitAssignment m = some (name, rhs) ∧
      rhs ≠ "" ∧ trim rhs = rhs ∧ m = name ++ " = " ++ rhs) ∧
    (∀ op ∈ comparisons, FirstOperator op (behindName s.toList) → normalizeMutation s = none) := by
  refine ⟨fun name m h => ?_, fun op hop => normalizeMutation_eq_none hop⟩
  obtain ⟨value, hmutation, rfl⟩ := normalizeMutation_eq_some_iff.1 h
  obtain ⟨hn, htrimmed⟩ := hmutation.isTrimmed
  exact ⟨value, splitAssignment_assign hn htrimmed, htrimmed.ne_empty, htrimmed.trim_eq, rfl⟩

end Statements

/-- A list that is made if there is none. -/
def fillStatement : String := " items ??= load( ) ;"

/-- A comparison of an element whose key looks like an operator. -/
def compareStatement : String := "items['+='] <= limit;"

theorem firstOperator_compareStatement :
    FirstOperator "<=" (behindName compareStatement.toList) := by
  have hbehind : behindName compareStatement.toList = "['+='] <= limit;".toList := by decide +kernel
  rw [hbehind]
  have hmarks : ("[", "]") ∈ enclosures := by decide
  exact .enclosed hmarks "'+='".toList (.skip (by decide) (.here (by decide)))

theorem normalizeMutation_canonical_items :
    normalizeMutation fillStatement = some ("items", "items = items ?? (load( ))") ∧
    (∃ rhs, splitAssignment "items = items ?? (load( ))" = some ("items", rhs) ∧
      rhs ≠ "" ∧ trim rhs = rhs ∧ "items = items ?? (load( ))" = "items" ++ " = " ++ rhs) ∧
    "<=" ∈ comparisons ∧ FirstOperator "<=" (behindName compareStatement.toList) ∧
    normalizeMutation compareStatement = none := by
  have hfill : normalizeMutation fillStatement = some ("items", "items = items ?? (load( ))") := by
    decide +kernel
  have hmem : "<=" ∈ comparisons := by decide
  have hfirst := firstOperator_compareStatement
  exact ⟨hfill, (normalizeMutation_canonical fillStatement).1 _ _ hfill, hmem, hfirst,
    (normalizeMutation_canonical compareStatement).2 _ hmem hfirst⟩

end WidgetBridge.State
