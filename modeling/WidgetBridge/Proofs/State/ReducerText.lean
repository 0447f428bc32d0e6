import WidgetBridge.Proofs.State.Reducer

/-!
# Reducers that were written

`toUseReducer` writes a reducer with one case for each transition, and folding it in gives the
transitions back (`inlineReducer_toUseReducer`).  The source of the reducer is cut into its cases,
each with the line feed in front of it; all matches of the patterns that folding searches for lie in
these pieces.
-/

namespace WidgetBridge.State

open WidgetBridge.Text WidgetBridge.Text.Pattern

/-! ## The source -/

/-- The source of a case from `case` on. -/
def caseChars (c : String × String) : List Char :=
  "case".toList ++ [' '] ++ ['\''] ++ c.1.toList ++ ['\''] ++ ":".toList ++ "\n      ".toList ++
    "return".toList ++
    [' '] ++ (c.2.toList ++ [';'])

/-- The source of a reducer up to its first case. -/
def headChars (name : String) : List Char :=
  "function ".toList ++
    ((name.toList ++ ['(']) ++ "state, action) \x7b\n  switch (action.type) \x7b".toList)

/-- The source of a reducer behind its last case. -/
def tailChars : List Char :=
  "\n    default:\n      return state;\n  \x7d\n\x7d".toList

theorem toList_reducerText (name : String) (cases : List (String × String)) :
    (reducerText name cases).toList =
    headChars name ++ (cases.flatMap (fun c => "\n    ".toList ++ caseChars c) ++ tailChars) := by
  have hcase (c : String × String) : "\n".toList ++ ("    case '" ++ c.1 ++ "':").toList ++
      ("\n".toList ++ ("      return " ++ c.2 ++ ";").toList) = "\n    ".toList ++ caseChars c := by
    unfold caseChars
    simp only [String.toList_append, String.reduceToList, List.append_assoc, List.cons_append,
      List.nil_append]
  have hcases :
      (cases.flatMap fun c => ["    case '" ++ c.1 ++ "':", "      return " ++ c.2 ++ ";"]).flatMap
      (fun t => "\n".toList ++ t.toList) = cases.flatMap fun c =>
        "\n    ".toList ++ caseChars c := by
    rw [List.flatMap_assoc]
    refine congrArg (cases.flatMap ·) (funext fun c => ?_)
    rw [← hcase, List.flatMap_cons, List.flatMap_cons, List.flatMap_nil, List.append_nil]
  rw [reducerText, List.append_assoc, List.cons_append, toList_join_cons, List.cons_append,
    List.nil_append, List.flatMap_cons, List.flatMap_append, hcases]
  unfold headChars tailChars
  simp only [String.toList_append, String.reduceToList, List.append_assoc, List.cons_append,
    List.nil_append, List.flatMap_cons, List.flatMap_nil, List.append_nil]

/-! ## The cases that are found -/

section Cases

variable {cs : List Char}

theorem passes_case (h : skips "case".toList cs = true) : Passes Form.returningCase cs := by
  unfold Form.returningCase
  iterate 11 refine Passes.seq ?_ _
  exact passes_lit h

theorem not_mem_of_spans_caseHead {gs : Groups} (h : Spans caseHead cs gs) : '(' ∉ cs := by
  have hblank (c : Char) (hc : isBlank c = true) : c ≠ '(' := by
    rintro rfl
    revert hc
    decide
  have hname (c : Char) (hc : (isWord c || c == '$') = true) : c ≠ '(' := by
    rintro rfl
    revert hc
    decide +kernel
  have hmark (c : Char) (hc : "'\"".toList.contains c = true) : c ≠ '(' := by
    rintro rfl
    revert hc
    decide
  have hlit {s : String} (hs : '(' ∉ s.toList) : Within (· ≠ '(') (lit s) :=
    within_lit fun c hc heq => hs (heq ▸ hc)
  have hwithin : Within (· ≠ '(') caseHead :=
    ⟨⟨⟨⟨⟨⟨⟨⟨⟨hlit (by decide), hblank⟩, hmark⟩, hname⟩, hmark⟩, hblank⟩, hlit (by decide)⟩, hblank⟩,
      hlit (by decide)⟩, hblank⟩
  exact fun hmem => h.within hwithin _ hmem rfl

/-- No case starts in the name of a reducer, since none has a bracket between `case` and
`return`. -/
theorem passes_case_name (h : ¬ "return".toList <:+: cs) :
    Passes Form.returningCase (cs ++ ['(']) := by
  induction cs with
  | nil => exact passes_case (by decide)
  | cons c cs ih =>
    refine ⟨fun rest => ?_, ih fun hpart => h (hpart.trans (List.suffix_cons c cs).isInfix)⟩
    have hrefuses : Refuses (caseHead ++ caseValue) (c :: (cs ++ ['('] ++ rest)) := by
      refine refuses_of_spans fun ds es gs heq hspans => absurd ?_ h
      obtain ⟨action, -, gap₁, key, gap₂, gap₃, gap₄, hds, -⟩ := spans_caseHead hspans
      have hreturn : "return".toList <:+: ds := ⟨_, gap₄, hds.symm⟩
      refine hreturn.trans ?_
      have heq : (c :: cs) ++ '(' :: rest = ds ++ es := by simpa using heq
      rcases List.append_eq_append_iff.1 heq with ⟨us, rfl, hus⟩ | ⟨us, hcs, -⟩
      · cases us with
        | nil => simp
        | cons u us =>
          rw [List.cons_append, List.cons.injEq] at hus
          exact absurd (by simp [← hus.1]) (not_mem_of_spans_caseHead hspans)
      · exact ⟨[], us, hcs.symm⟩
    exact fun before position groups k => hrefuses before position groups k

theorem takes_key {ds : List Char} (h : IsNameWord ds) (rest : List Char) :
    Takes (group 1 (many1 nameRest)) ds (['\''] ++ rest) [(1, ds)] := by
  refine (takes_many1 h.ne_nil h.parts ?_).group 1
  rintro d ⟨⟩
  decide +kernel

theorem takes_mark (rest : List Char) : Takes (oneOf "'\"") ['\''] rest [] :=
  takes_char (by decide) rest

theorem takes_case {c : String × String} (hword : IsNameWord c.1.toList) {d : Char} {ds : List Char}
    (hvalue : c.2.toList = d :: ds) (hd : isBlank d = false) (hsemi : ';' ∉ ds) (rest : List Char) :
    Takes Form.returningCase (caseChars c) rest [(2, c.2.toList), (1, c.1.toList)] := by
  have hends : Takes caseValue (c.2.toList ++ [';']) rest [(2, c.2.toList)] := by
    rw [hvalue]
    exact takes_few1_until (passes_lit (s := ";") (skips_of_not_mem [] hsemi))
      (takes_lit ";" rest) 2
  have hfirst : ∀ e ∈ (c.2.toList ++ [';'] ++ rest).head?, isBlank e = false := by
    rw [hvalue]
    rintro e ⟨⟩
    exact hd
  have hgap (xs : List Char) : Takes blanks1 [' '] (['\''] ++ xs) [] :=
    takes_blanks1_space (by rintro e ⟨⟩; decide)
  have hnone (xs : List Char) : Takes blanks [] (":".toList ++ xs) [] :=
    takes_blanks_nil (by rintro e ⟨⟩; decide)
  have hbreak (xs : List Char) : Takes blanks "\n      ".toList ("return".toList ++ xs) [] :=
    takes_many (forall_mem_of_all (by decide)) (by rintro e ⟨⟩; decide)
  have hname :=
    ((((takes_lit "case" _).seq (hgap _)).seq (takes_mark _)).seq (takes_key hword _)).seq
    (takes_mark
      (":".toList ++
      ("\n      ".toList ++ ("return".toList ++ ([' '] ++ (c.2.toList ++ [';'] ++ rest))))))
  have hhead :=
    ((((hname.seq_nil (hnone _)).seq (takes_lit ":" _)).seq (hbreak _)).seq
    (takes_lit "return" _)).seq
    (takes_blanks1_space hfirst)
  exact (hhead.seq hends).assoc

/-! ## Counting the returns -/

theorem passes_lit_concat {s : String} {d : Char} (h : ¬ s.toList <:+: cs) (hd : d ∉ s.toList) :
    Passes (lit s) (cs ++ [d]) := by
  have hrefuses {es : List Char} (hes : es <:+ cs) (rest : List Char) : Refuses (lit s)
      (es ++ d :: rest) := by
    have hnone : dropHead? s.toList (es ++ d :: rest) = none := by
      rw [← Option.not_isSome_iff_eq_none, dropHead?_isSome_append_cons hd]
      intro hsome
      obtain ⟨us, hus⟩ := Option.isSome_iff_exists.1 hsome
      rw [dropHead?_eq_some_iff] at hus
      exact h (List.IsInfix.trans ⟨[], us, hus.symm⟩ hes.isInfix)
    intro before position groups k
    rw [run_lit, hnone]
    rfl
  have hparts (es : List Char) (hes : es <:+ cs) : Passes (lit s) (es ++ [d]) := by
    induction es with
    | nil => exact ⟨fun rest => hrefuses hes rest, trivial⟩
    | cons e es ih =>
      refine ⟨fun rest => ?_, ih ((List.suffix_cons e es).trans hes)⟩
      have heq : e :: (es ++ [d] ++ rest) = e :: es ++ d :: rest := by simp
      exact heq ▸ hrefuses hes rest
  exact hparts cs (List.suffix_refl cs)

/-- A case of a reducer whose parts hold no `return` of their own. -/
structure IsSilent (c : String × String) : Prop where
  trigger : ¬ "return".toList <:+: c.1.toList
  value : ¬ "return".toList <:+: c.2.toList

theorem passes_return_head {name : String} (h : ¬ "return".toList <:+: name.toList) :
    Passes (lit "return") (headChars name) :=
  (passes_lit (by decide)).append
    ((passes_lit_concat h (by decide)).append (passes_lit (by decide)))

theorem finds_return {cases : List (String × String)} (h : ∀ c ∈ cases, IsSilent c)
    {lead : List Char} (hlead : Passes (lit "return") lead) : Finds (lit "return")
      (lead ++ (cases.flatMap (fun c => "\n    ".toList ++ caseChars c) ++ tailChars))
      (cases.map (fun _ => []) ++ [[]]) := by
  induction cases generalizing lead with
  | nil =>
    have hfinds : Finds (lit "return") (lead ++ "\n    default:\n      ".toList ++
        ("return".toList ++ " state;\n  \x7d\n\x7d".toList)) [[]] :=
      .next (hlead.append (passes_lit (by decide))) (by decide) (takes_lit _ _)
        (.last (passes_lit (by decide)))
    unfold tailChars
    simpa using hfinds
  | cons c cases ih =>
    obtain ⟨hc, hcases⟩ := List.forall_mem_cons.1 h
    have hbefore : Passes (lit "return")
        (lead ++ ("\n    case '".toList ++ ((c.1.toList ++ ['\'']) ++ ":\n      ".toList))) :=
      hlead.append
        ((passes_lit (by decide)).append ((passes_lit_concat hc.trigger (by decide)).append
        (passes_lit (by decide))))
    have hafter : Passes (lit "return") ([' '] ++ (c.2.toList ++ [';'])) :=
      (passes_lit (by decide)).append (passes_lit_concat hc.value (by decide))
    have hfinds := Finds.next hbefore (by decide) (takes_lit "return" _) (ih hcases hafter)
    have hsplit : "\n    ".toList ++ caseChars c =
        "\n    case '".toList ++ ((c.1.toList ++ ['\'']) ++ ":\n      ".toList) ++
          ("return".toList ++ ([' '] ++ (c.2.toList ++ [';']))) := by
      unfold caseChars
      simp
    rw [List.flatMap_cons, hsplit]
    simpa only [List.append_assoc, List.map_cons, List.cons_append] using hfinds

theorem finds_case {cases : List (String × String)} (hword : ∀ c ∈ cases, IsNameWord c.1.toList)
    (hvalue : ∀ c ∈ cases, ∃ d ds, c.2.toList = d :: ds ∧ isBlank d = false ∧ ';' ∉ ds)
    {lead : List Char} (hlead : Passes Form.returningCase lead) : Finds Form.returningCase
      (lead ++ (cases.flatMap (fun c => "\n    ".toList ++ caseChars c) ++ tailChars))
      (cases.map fun c => [(2, c.2.toList), (1, c.1.toList)]) := by
  induction cases generalizing lead with
  | nil => exact .last (hlead.append (passes_case (by decide)))
  | cons c cases ih =>
    obtain ⟨hc, hcases⟩ := List.forall_mem_cons.1 hword
    obtain ⟨⟨d, ds, hds, hd, hsemi⟩, hvalues⟩ := List.forall_mem_cons.1 hvalue
    have hne : caseChars c ≠ [] := nofun
    have hspace : Passes Form.returningCase "\n    ".toList := passes_case (by decide)
    have hfinds := Finds.next (hlead.append hspace) hne
      (takes_case hc hds hd hsemi _) (ih hcases hvalues (passes_nil _))
    rw [List.flatMap_cons]
    simpa using hfinds

end Cases

/-! ## Folding what was written -/

/-- A transition that a reducer can stand for: its trigger is made of characters of names, and it
assigns a trimmed value without semicolons, in which `state` does not stand loose unless it is the
name of the state itself. -/
structure IsStep (name : String) (t : Transition) (value : String) : Prop where
  mutation : t.mutation = assign name value
  trigger : IsNameWord t.trigger.toList
  ne_empty : value ≠ ""
  trimmed : trim value = value
  no_semicolon : ';' ∉ value.toList
  not_loose : name ≠ "state" → ∀ as bs, value.toList = as ++ ("state".toList ++ bs) →
    isLoose as.reverse bs = false
  silent : IsSilent (t.trigger, value)

theorem isNameWord_state : IsNameWord "state".toList :=
  ⟨by decide, forall_mem_of_all (by decide +kernel)⟩

section Step

variable {name value : String} {t : Transition}

theorem IsStep.trimChars_eq (h : IsStep name t value) : trimChars value.toList = value.toList := by
  rw [← String.toList_ofList (l := trimChars value.toList)]
  exact congrArg String.toList h.trimmed

theorem IsStep.assignable (h : IsStep name t value) : Assignable value where
  ne_empty := h.ne_empty
  first _ hc := not_isBlank_of_head?_trimChars (h.trimChars_eq.symm ▸ hc)
  last _ hc := ⟨not_isBlank_of_getLast?_trimChars (h.trimChars_eq.symm ▸ hc), fun heq =>
    h.no_semicolon (heq ▸ List.mem_of_getLast? hc)⟩

theorem IsStep.renames (hn : IsIdent name) (value : String) :
    Renames isLoose name.toList "state".toList []
    value.toList (renameIdentifier value name "state").toList := by
  refine renames_renameIdentifier ?_ value "state"
  rw [← String.toList_inj.ne]
  exact hn.isNameWord.ne_nil

/-- The value with the name of the reducer can stand in a case. -/
theorem IsStep.assignable_renamed (h : IsStep name t value) (hn : IsIdent name) :
    Assignable (renameIdentifier value name "state") := by
  have hrenames := IsStep.renames hn value
  have hvalue : value.toList ≠ [] := by simpa using h.ne_empty
  refine ⟨?_, fun c hc => ?_, fun c hc => ?_⟩
  · rw [← String.toList_inj.ne]
    exact hrenames.ne_nil (by decide) hvalue
  · rcases hrenames.mem_head? (by decide) hc with hc | hc
    · exact h.assignable.first c hc
    · cases hc
      decide
  · rcases hrenames.mem_getLast? hn.isNameWord.ne_nil (by decide) hc with hc | hc
    · exact h.assignable.last c hc
    · cases hc
      decide

theorem IsStep.no_semicolon_renamed (h : IsStep name t value) (hn : IsIdent name) :
    ';' ∉ (renameIdentifier value name "state").toList := fun hmem =>
  ((IsStep.renames hn value).mem hmem).elim h.no_semicolon (by decide)

theorem IsStep.silent_renamed (h : IsStep name t value) (hn : IsIdent name) :
    IsSilent (t.trigger, renameIdentifier value name "state") where
  trigger := h.silent.trigger
  value hpart := h.silent.value
    ((IsStep.renames hn value).held_before hn.isNameWord
      (forall_mem_of_all (by decide +kernel)) (by decide) hpart)

/-- Renaming back gives the value as it was. -/
theorem IsStep.rename_rename (h : IsStep name t value) (hn : IsIdent name) :
    renameIdentifier (renameIdentifier value name "state") "state" name = value := by
  by_cases heq : name = "state"
  · subst heq
    rfl
  · have hback := (IsStep.renames hn value).symm hn.isNameWord isNameWord_state
      (fun as bs has => by simpa using h.not_loose heq as bs has) (.inl rfl)
    have hrenames : Renames isLoose "state".toList _ _ _ _ :=
      renames_renameIdentifier (by decide) (renameIdentifier value name "state") name
    exact String.toList_inj.1 (hrenames.unique (by decide) hback)

end Step

/-- The source that sends an action without payload. -/
def sentAction (trigger : String) : String := "\x7b type: '" ++ trigger ++ "' \x7d"

/-- A binding whose transitions send their triggers as actions. -/
def Binding.sending (b : Binding) : Binding :=
  { b with transitions := b.transitions.map fun t => { t with mutation := sentAction t.trigger } }

theorem toList_sentAction (trigger : String) : (sentAction trigger).toList =
    "\x7b".toList ++ [' '] ++ "type:".toList ++ [' '] ++ ['\''] ++ trigger.toList ++
      ['\''] ++ [' '] ++
      "\x7d".toList := by
  simp [sentAction]

theorem trim_sentAction (trigger : String) : trim (sentAction trigger) = sentAction trigger := by
  rw [trim, trimChars_of_ends, String.ofList_toList]
  · rw [toList_sentAction]
    rintro c ⟨⟩
    decide
  · rw [toList_sentAction, List.getLast?_append]
    rintro c ⟨⟩
    decide

theorem plainAction_sentAction {trigger : String} (h : IsNameWord trigger.toList) :
    ∃ m, Form.plainAction.matchStart? (sentAction trigger) = some m ∧ m.get 1 = trigger := by
  have hopen : Opens Form.plainAction _ [] _ :=
    ((((((((((opens_textStart _).seq (takes_lit "\x7b" _)).seq
    (takes_blanks_space (by rintro e ⟨⟩; decide))).seq (takes_lit "type:" _)).seq
    (takes_blanks_space (by rintro e ⟨⟩; decide))).seq (takes_mark _)).seq (takes_key h _)).seq
      (takes_mark _)).seq
    (takes_blanks_space (by rintro e ⟨⟩; decide))).seq (takes_lit "\x7d" _)).seq_nil takes_textEnd
  refine ⟨_, matchStart?_of_opens (by simp [toList_sentAction]) hopen, ?_⟩
  simp [Match.get, Match.group?]

theorem inlineTransition_sentAction {name : String} {cases : Assoc String} {t : Transition}
    {value : String} (hn : IsIdent name) (h : IsStep name t value)
    (hcases : cases.get? t.trigger = some (renameIdentifier value name "state")) :
    inlineTransition name cases { t with mutation := sentAction t.trigger } =
      some (t.trigger, t) := by
  obtain ⟨m, hm, hone⟩ := plainAction_sentAction h.trigger
  have hmutation : name ++ " = " ++ value = t.mutation := h.mutation.symm
  unfold inlineTransition
  simp only [trim_sentAction, hm, hone, hcases, bind, pure, Option.bind_some,
    (h.assignable_renamed hn).trim_eq, h.rename_rename hn, hmutation]

theorem keepsDefault (name : String) (cases : List (String × String)) :
    (Form.keepingDefault.search? (reducerText name cases)).isSome = true := by
  have hline : ∀ c ∈ "\n      ".toList, isBlank c = true := forall_mem_of_all (by decide)
  have htakes : Takes Form.keepingDefault _ "\n  \x7d\n\x7d".toList _ :=
    ((((((((takes_lit "default" _).seq_nil
    (takes_blanks_nil (by rintro e ⟨⟩; decide))).seq (takes_lit ":" _)).seq
    (takes_many hline (by rintro e ⟨⟩; decide))).seq (takes_lit "return" _)).seq
    (takes_blanks1_space (by rintro e ⟨⟩; decide))).seq (takes_lit "state" _)).seq_nil
    (takes_blanks_nil (by rintro e ⟨⟩; decide))).seq (takes_lit ";" _)
  refine isSome_search?
    (show _ = (headChars name ++ (cases.flatMap (fun c => "\n    ".toList ++ caseChars c) ++
    "\n    ".toList)) ++ _ from ?_) htakes
  rw [toList_reducerText]
  unfold tailChars
  simp

/-- The name of the reducer that a binding is written with. -/
def Binding.reducerName (b : Binding) : String :=
  (b.reuse? .useReducer b.reducer).getD (lowerFirst (bareName b.name) ++ "Reducer")

/-- The case of a transition in the reducer of a binding. -/
def Binding.caseOf (b : Binding) (t : Transition) : String × String :=
  (t.trigger, renameIdentifier ((assignedTo? b.name t.mutation).getD "") b.name "state")

/-- A binding that can go through a reducer: its triggers differ, and each transition is a step. -/
structure Binding.IsReducible (b : Binding) : Prop where
  name : IsIdent b.name
  ne_nil : b.transitions ≠ []
  nodup : (b.transitions.map (·.trigger)).Nodup
  steps : ∀ t ∈ b.transitions, ∃ value, IsStep b.name t value
  silent : ¬ "return".toList <:+: b.reducerName.toList

section Reducible

variable {b : Binding}

theorem IsStep.caseOf {t : Transition} {value : String} (h : IsStep b.name t value)
    (hn : IsIdent b.name) :
    assignedTo? b.name t.mutation = some value ∧
      b.caseOf t = (t.trigger, renameIdentifier value b.name "state") := by
  have hvalue : assignedTo? b.name t.mutation = some value := by
    rw [h.mutation, assignedTo?_assign hn h.assignable]
  refine ⟨hvalue, ?_⟩
  rw [Binding.caseOf, hvalue, Option.getD_some]

theorem Binding.IsReducible.declarations (h : b.IsReducible) :
    (expand b .useReducer).declarations =
      [reducerText b.reducerName (b.transitions.map b.caseOf)] := by
  have hcases : (b.transitions.filterMap fun t => (assignedTo? b.name t.mutation).map fun v =>
      (t.trigger, renameIdentifier v b.name "state")) = b.transitions.map b.caseOf := by
    refine List.filterMap_eq_map_iff_forall_eq_some.2 fun t ht => ?_
    obtain ⟨value, hvalue⟩ := h.steps t ht
    obtain ⟨hassigned, hcase⟩ := hvalue.caseOf h.name
    rw [hassigned, hcase, Option.map_some]
  have hne : (b.transitions.map b.caseOf).isEmpty = false := by simpa using h.ne_nil
  simp only [expand, toUseReducer, hcases, hne, Bool.false_and, Bool.false_eq_true, if_false]
  rfl

theorem Binding.IsReducible.casesOf (h : b.IsReducible) :
    casesOf (reducerText b.reducerName (b.transitions.map b.caseOf)) =
      b.transitions.map b.caseOf := by
  have hfinds : Finds Form.returningCase
      (reducerText b.reducerName (b.transitions.map b.caseOf)).toList
      ((b.transitions.map b.caseOf).map fun c => [(2, c.2.toList), (1, c.1.toList)]) := by
    rw [toList_reducerText]
    refine finds_case ?_ ?_ ?_
    · refine List.forall_mem_map.2 fun t ht => ?_
      obtain ⟨value, hvalue⟩ := h.steps t ht
      exact hvalue.trigger
    · refine List.forall_mem_map.2 fun t ht => ?_
      obtain ⟨value, hvalue⟩ := h.steps t ht
      have hassignable := hvalue.assignable_renamed h.name
      rw [(hvalue.caseOf h.name).2]
      have hne : (renameIdentifier value b.name "state").toList ≠ [] := by
        simpa using hassignable.ne_empty
      obtain ⟨d, ds, hds⟩ := List.exists_cons_of_ne_nil hne
      refine ⟨d, ds, hds, hassignable.first d (by rw [hds]; rfl), fun hmem => ?_⟩
      exact hvalue.no_semicolon_renamed h.name (by rw [hds]; exact List.mem_cons_of_mem d hmem)
    · exact (passes_case (by decide)).append
        ((passes_case_name h.silent).append (passes_case (by decide)))
  have hgroups := hfinds.map_findAll fun before position groups k => rfl
  have hpairs :
      (findAll Form.returningCase (reducerText b.reducerName (b.transitions.map b.caseOf))).map
      (fun m => (m.get 1, m.get 2)) = b.transitions.map b.caseOf := by
    -- what a match gives depends on its groups alone
    let pair (gs : Groups) : String × String :=
      (((gs.lookup 1).map String.ofList).getD "", ((gs.lookup 2).map String.ofList).getD "")
    calc _ = ((findAll Form.returningCase
          (reducerText b.reducerName (b.transitions.map b.caseOf))).map
          (·.groups)).map pair := by rw [List.map_map]; rfl
      _ = _ := by
        rw [hgroups, List.map_map]
        refine List.map_id'' (fun c => ?_) _
        simp [pair, List.lookup_cons]
  rw [State.casesOf, hpairs]
  refine Assoc.ofPairs_of_nodup ?_
  rw [Assoc.keys, List.map_map]
  exact h.nodup

theorem Binding.IsReducible.occurrences_return (h : b.IsReducible) :
    occurrences "return" (reducerText b.reducerName (b.transitions.map b.caseOf)) =
      b.transitions.length + 1 := by
  have hfinds : Finds (lit "return") (reducerText b.reducerName (b.transitions.map b.caseOf)).toList
      ((b.transitions.map b.caseOf).map (fun _ => []) ++ [[]]) := by
    rw [toList_reducerText]
    refine finds_return (List.forall_mem_map.2 fun t ht => ?_) (passes_return_head h.silent)
    obtain ⟨value, hvalue⟩ := h.steps t ht
    rw [(hvalue.caseOf h.name).2]
    exact hvalue.silent_renamed h.name
  have hgroups := congrArg List.length (hfinds.map_findAll (refuses_nil_lit (by decide)))
  rw [List.length_map] at hgroups
  rw [occurrences, hgroups]
  simp

theorem mapM_map_eq_some {α β γ : Type} {f : α → Option β} {g : γ → α} {h : γ → β} {xs : List γ}
    (hf : ∀ x ∈ xs, f (g x) = some (h x)) : (xs.map g).mapM f = some (xs.map h) := by
  induction xs with
  | nil => rfl
  | cons x xs ih =>
    obtain ⟨hx, hxs⟩ := List.forall_mem_cons.1 hf
    rw [List.map_cons, List.mapM_cons, hx, ih hxs]
    rfl

/-- Folding in the reducer that was written gives back the transitions. -/
theorem inlineReducer_toUseReducer (h : b.IsReducible) : ∃ reducer,
    (expand b .useReducer).declarations = [reducer] ∧ inlineReducer b.sending reducer = some b := by
  refine ⟨_, h.declarations, ?_⟩
  have hnames : (Assoc.keys (b.transitions.map b.caseOf)) = b.transitions.map (·.trigger) := by
    rw [Assoc.keys, List.map_map]
    rfl
  have hinlined : b.sending.transitions.mapM
      (inlineTransition b.name (b.transitions.map b.caseOf)) =
      some (b.transitions.map fun t => (t.trigger, t)) := by
    refine mapM_map_eq_some fun t ht => ?_
    obtain ⟨value, hvalue⟩ := h.steps t ht
    refine inlineTransition_sentAction h.name hvalue (Assoc.lookup_of_mem (hnames ▸ h.nodup) ?_)
    rw [← (hvalue.caseOf h.name).2]
    exact List.mem_map_of_mem ht
  have hcases : ¬ ((b.transitions.map b.caseOf).isEmpty ||
      (Form.keepingDefault.search?
        (reducerText b.reducerName (b.transitions.map b.caseOf))).isNone) = true := by
    simp [h.ne_nil,
      Option.isSome_iff_ne_none.1 (keepsDefault b.reducerName (b.transitions.map b.caseOf))]
  have hreturns : ¬
      (occurrences "return" (reducerText b.reducerName (b.transitions.map b.caseOf)) !=
      (b.transitions.map b.caseOf).length + 1) = true := by
    simp [h.occurrences_return]
  have hall : ¬ (!(Assoc.keys (b.transitions.map b.caseOf)).all fun k =>
      (b.transitions.map fun t => (t.trigger, t)).any fun i => i.1 == k) = true := by
    rw [hnames]
    simp only [Bool.not_eq_true', Bool.not_eq_false, List.all_eq_true, List.any_map,
      List.any_eq_true]
    intro k hk
    obtain ⟨t, ht, rfl⟩ := List.mem_map.1 hk
    exact ⟨t, ht, beq_self_eq_true _⟩
  rw [inlineReducer_eq, h.casesOf, if_neg hcases, if_neg hreturns]
  change (b.sending.transitions.mapM (inlineTransition b.name (b.transitions.map b.caseOf))).bind
    _ = _
  rw [hinlined, Option.bind_some, if_neg hall, List.map_map]
  change some { b with transitions := b.transitions.map id } = some b
  rw [List.map_id]

end Reducible

/-! ## A counter -/

theorem not_infix_of_forall {pat cs : List Char}
    (h : ∀ n ≤ cs.length, dropHead? pat (cs.drop n) = none) :
    ¬ pat <:+: cs := by
  rintro ⟨as, bs, rfl⟩
  have hn := h as.length (by simp)
  rw [List.append_assoc, List.drop_left, dropHead?_append] at hn
  cases hn

theorem not_isLoose_of_forall {word cs : List Char}
    (h : ∀ n ≤ cs.length,
    (dropHead? word (cs.drop n)).all (fun rest => !isLoose (cs.take n).reverse rest) = true)
    (as bs : List Char) (heq : cs = as ++ (word ++ bs)) : isLoose as.reverse bs = false := by
  have hn := h as.length (by simp [heq])
  rw [heq, List.drop_left, List.take_left, dropHead?_append] at hn
  simpa using hn

/-- A counter with a step up and one back to the start. -/
def steppingCounter : Binding where
  kind := .reducer
  name := "_count"
  initial := some (.literal (.int 0))
  transitions := [⟨"increment", "_count = _count + step.state"⟩, ⟨"reset", "_count = 0"⟩]

theorem isReducible_steppingCounter : steppingCounter.IsReducible where
  name := ⟨'_', "count".toList, rfl, by decide, forall_mem_of_all (by decide +kernel)⟩
  ne_nil := List.cons_ne_nil _ _
  nodup := by decide
  steps := by
    refine List.forall_mem_cons.2
      ⟨⟨"_count + step.state", ?_⟩, List.forall_mem_singleton.2 ⟨"0", ?_⟩⟩
    · exact {
        mutation := rfl
        trigger := ⟨by decide, forall_mem_of_all (by decide +kernel)⟩
        ne_empty := by decide
        trimmed := by decide +kernel
        no_semicolon := by decide
        not_loose := fun _ => not_isLoose_of_forall (by decide +kernel)
        silent :=
          ⟨not_infix_of_forall (by decide +kernel), not_infix_of_forall (by decide +kernel)⟩ }
    · exact {
        mutation := rfl
        trigger := ⟨by decide, forall_mem_of_all (by decide +kernel)⟩
        ne_empty := by decide
        trimmed := by decide +kernel
        no_semicolon := by decide
        not_loose := fun _ => not_isLoose_of_forall (by decide +kernel)
        silent :=
          ⟨not_infix_of_forall (by decide +kernel), not_infix_of_forall (by decide +kernel)⟩ }
  silent := not_infix_of_forall (by decide +kernel)

theorem inlineReducer_toUseReducer_counter : steppingCounter.IsReducible ∧ ∃ reducer,
    (expand steppingCounter .useReducer).declarations = [reducer] ∧
      inlineReducer steppingCounter.sending reducer = some steppingCounter :=
  ⟨isReducible_steppingCounter, inlineReducer_toUseReducer isReducible_steppingCounter⟩

end WidgetBridge.State
