import WidgetBridge.Proofs.State.StateField
import WidgetBridge.Writing.WidgetCode

/-!
# State written with `setState`

A binding of local state is written as a field, a setter and a method for each transition.  Reading
the class around them takes the field and the methods for the binding again (`scanWidget_setState`),
unless the first value is an object: the comma in the type of such a field keeps its name from being
found, and everything stays as it is.
-/

namespace WidgetBridge.State

open WidgetBridge.Text WidgetBridge.WidgetGrammar WidgetBridge.Number

/-! ## Rows of methods -/

/-- A method that sets a state: its name, its parameters, and the mutation. -/
structure Setting where
  name : String
  params : List String
  mutation : String

/-- The member that a method is. -/
def Setting.Is (s : Setting) (m : Member) : Prop := IsSetting s.name s.params (s.mutation ++ ";") m

variable {state : String} {ss : List Setting} {ms : List Member}

theorem closuresIn_settings (h : MembersMeet (ss.map Setting.Is) ms) :
    LeafFirst (ms.flatMap fun m => m.range.trees) ∧
      closuresIn (ms.flatMap fun m => m.range.trees) =
        .ok (ss.map fun s => [s.mutation ++ ";"]) := by
  induction ss generalizing ms with
  | nil =>
    obtain rfl := List.forall₂_nil_left_iff.1 h
    refine ⟨by rintro u ⟨⟩, ?_⟩
    rw [List.flatMap_nil, closuresIn, argumentsOf_eq_nil (by simp [TokenTree.tokensOf])]
    rfl
  | cons s ss ih =>
    obtain ⟨m, ms, hm, hms, rfl⟩ := List.forall₂_cons_left_iff.1 h
    obtain ⟨hleaf, hclosures⟩ := ih hms
    rw [List.flatMap_cons]
    refine ⟨?_, closuresIn_append hleaf hm.closures_eq hclosures⟩
    cases htrees : m.range.trees with
    | nil => exact hleaf
    | cons t ts =>
      have hfirst := hm.leafFirst
      rw [htrees] at hfirst
      exact hfirst

/-- The names that the methods of a class with one field assign to. -/
theorem mutatedNames_settings {field : String} {m : Member} (hm : IsField field m)
    (h : MembersMeet (ss.map Setting.Is) ms)
    (hs : ∀ s ∈ ss, normalizeMutation (s.mutation ++ ";") = some (state, s.mutation)) {body : Range}
    (hbody : body.trees = (m :: ms).flatMap fun m => m.range.trees) :
    mutatedNames body = .ok (ss.map fun _ => state) := by
  obtain ⟨hleaf, hclosures⟩ := closuresIn_settings h
  have hall := closuresIn_append hleaf hm.closures_eq hclosures
  have hnames : (ss.map fun s => [s.mutation ++ ";"]).flatten.filterMap
      (fun s => (normalizeMutation s).map (·.1)) = ss.map fun _ => state := by
    clear h hm hclosures hall
    induction ss with
    | nil => rfl
    | cons s ss ih =>
      rw [List.forall_mem_cons] at hs
      simp [hs.1, ih hs.2]
  rw [mutatedNames_eq, hbody, List.flatMap_cons, hall, List.nil_append]
  exact congrArg Except.ok hnames

theorem liftFields_settings (h : MembersMeet (ss.map Setting.Is) ms) (mutated : List String)
    (bindings : Assoc Binding) : liftFields mutated bindings ms = .ok (bindings, ms) := by
  induction ss generalizing ms with
  | nil =>
    obtain rfl := List.forall₂_nil_left_iff.1 h
    rfl
  | cons s ss ih =>
    obtain ⟨m, ms, hm, hms, rfl⟩ := List.forall₂_cons_left_iff.1 h
    have hkind : m.kind = .method := hm.kind_eq
    simp [liftFields, holdsState, hkind, ih hms, bind, Except.bind, pure, Except.pure]

/-! ## Lifting methods -/

section Lifting

variable {s : Setting} {m : Member} {b : Binding}

/-- A method that sets something else stays. -/
theorem liftMethod_other (hm : s.Is m)
    (hs : normalizeMutation (s.mutation ++ ";") = some (state, s.mutation)) :
    liftMethod [] m = .ok none := by
  have hstatements := hm.statements_eq
  simp only [liftMethod, hstatements, bind, Except.bind, Option.getD_some, List.map_cons,
    List.map_nil, hs, Assoc.get?, List.lookup_nil, Option.bind_none, Option.isSome_some,
    Bool.or_true, if_true, pure, Except.pure]

theorem liftMethod_transition (hm : s.Is m) (hparams : s.params = [])
    (hs : normalizeMutation (s.mutation ++ ";") = some (state, s.mutation)) :
    liftMethod [(state, b)] m = .ok (some [(state, b.addTransition s.name s.mutation)]) := by
  have hstatements := hm.statements_eq
  have hnone : paramsOfMember m = [] := by rw [hm.params_eq, hparams]
  have hname : m.name = s.name := hm.name_eq
  simp only [liftMethod, hstatements, bind, Except.bind, Option.getD_some, List.map_cons,
    List.map_nil, hs, hnone, hname, Assoc.get?, Assoc.put, Assoc.has, List.lookup_cons,
    beq_self_eq_true, Option.bind_some, Option.isSome_some, if_true, pure, Except.pure]

theorem liftMethod_setter {p : String} (hm : s.Is m) (hparams : s.params = [p])
    (hmutation : s.mutation = assign state p)
    (hs : normalizeMutation (s.mutation ++ ";") = some (state, s.mutation)) :
    liftMethod [(state, b)] m = .ok (some [(state, { b with setter := some s.name })]) := by
  have hstatements := hm.statements_eq
  have hone : paramsOfMember m = [p] := by rw [hm.params_eq, hparams]
  have hname : m.name = s.name := hm.name_eq
  have hassign : (s.mutation == state ++ " = " ++ p) = true := by
    rw [hmutation, assign]
    exact beq_self_eq_true _
  simp only [liftMethod, hstatements, bind, Except.bind, Option.getD_some, List.map_cons,
    List.map_nil, hs, hone, hname, hassign, Assoc.get?, Assoc.put, Assoc.has, List.lookup_cons,
    beq_self_eq_true, Option.bind_some, Option.isSome_some, if_true, pure, Except.pure]

/-- Without a field that holds the state, the methods stay. -/
theorem liftMethods_others (h : MembersMeet (ss.map Setting.Is) ms)
    (hs : ∀ s ∈ ss, normalizeMutation (s.mutation ++ ";") = some (state, s.mutation)) :
    liftMethods [] ms = .ok ([], ms) := by
  induction ss generalizing ms with
  | nil =>
    obtain rfl := List.forall₂_nil_left_iff.1 h
    rfl
  | cons s ss ih =>
    obtain ⟨m, ms, hm, hms, rfl⟩ := List.forall₂_cons_left_iff.1 h
    rw [List.forall_mem_cons] at hs
    have hkind : m.kind = .method := hm.kind_eq
    simp [liftMethods, hkind, Assoc.has, liftMethod_other hm hs.1, ih hms hs.2, bind,
      Except.bind, pure, Except.pure]

theorem liftMethods_cons {bs bs' : Assoc Binding} (hm : s.Is m) (hnew : bs.has s.name = false)
    (hlift : liftMethod bs m = .ok (some bs')) (ms : List Member) :
    liftMethods bs (m :: ms) = liftMethods bs' ms := by
  have hkind : m.kind = .method := hm.kind_eq
  have hname : m.name = s.name := hm.name_eq
  simp [liftMethods, hkind, hname, hnew, hlift, bind, Except.bind]

/-- Methods without parameters become the transitions of the binding, in their order. -/
theorem liftMethods_transitions (h : MembersMeet (ss.map Setting.Is) ms)
    (hs : ∀ s ∈ ss, normalizeMutation (s.mutation ++ ";") = some (state, s.mutation))
    (hparams : ∀ s ∈ ss, s.params = []) (hnames : ∀ s ∈ ss, s.name ≠ state) :
    liftMethods [(state, b)] ms =
      .ok ([(state,
      { b with transitions := b.transitions ++ ss.map fun s => ⟨s.name, s.mutation⟩ })], []) := by
  induction ss generalizing ms b with
  | nil =>
    obtain rfl := List.forall₂_nil_left_iff.1 h
    simp [liftMethods]
  | cons s ss ih =>
    obtain ⟨m, ms, hm, hms, rfl⟩ := List.forall₂_cons_left_iff.1 h
    rw [List.forall_mem_cons] at hs hparams hnames
    have hnew : Assoc.has [(state, b)] s.name = false := by
      simp [Assoc.has, List.lookup_cons, beq_eq_false_iff_ne.2 hnames.1]
    rw [liftMethods_cons hm hnew (liftMethod_transition hm hparams.1 hs.1),
      ih hms hs.2 hparams.2 hnames.2]
    simp [Binding.addTransition]

end Lifting

/-! ## Types of fields -/

/-- The types of fields that are found again, where no type stands for `var`. -/
def plainTypes : List String := ["", "bool", "int", "String", "List"]

theorem trim_late {type : String} (h : type ∈ plainTypes) :
    trim ((Pattern.lit "late").replaceAll (fun _ => "") type) = type := by
  simp only [plainTypes, List.mem_cons, List.not_mem_nil, or_false] at h
  rcases h with rfl | rfl | rfl | rfl | rfl <;> rfl

/-- The binding that a field gives before its methods are read. -/
def fieldBinding (name type : String) (v : Value) : Binding where
  kind := .local
  name := name
  initial := some (.literal v)
  typeHint := if type.isEmpty then none else some type
  idiom := some "setState"

theorem bindingOfField_eq {name type : String} {v : Value} {m : Member}
    (h : IsStateField name type v m) (htype : type ∈ plainTypes) :
    bindingOfField m = .ok (fieldBinding name type v) := by
  obtain ⟨r, e, hr, he, hprop⟩ := h.initial
  have hname : m.name = name := h.name_eq
  simp only [bindingOfField, hr, he, Except.map, bind, Except.bind, h.type_eq, trim_late htype,
    hname, hprop, pure, Except.pure]
  rfl

/-! ## The members of a binding -/

/-- A binding of local state that is data at first, and whose transitions add to it. -/
structure IsTally (b : Binding) (v : Value) : Prop where
  kind_eq : b.kind = .local
  isName : isName b.name = true
  lower : startsUpper b.name = false
  not_keyword : b.name ∉ declarationWords ++ directiveWords
  typeHint_eq : b.typeHint = none
  initial_eq : b.initial = some (.literal v)
  exact : Exact v
  /-- A setter that keeps its name has one of its own. -/
  setter : ∀ s, b.reuse? .setState b.setter = some s ∨ b.reuse? .useState b.setter = some s →
    WidgetGrammar.isName s = true ∧ s ≠ b.name
  transitions : ∀ t ∈ b.transitions, WidgetGrammar.isName t.trigger = true ∧ t.trigger ≠ b.name ∧
    ∃ k, t.mutation = assign b.name (raised b.name k)

/-- The parameter of a setter. -/
def setterParam (type : Option String) : String :=
  match type with
  | some t => t ++ " value"
  | none => "value"

/-- The name under which a setter is written. -/
def emittedSetter (b : Binding) : String :=
  ((b.reuse? .setState b.setter).orElse fun _ => b.reuse? .useState b.setter).getD
    (setterName b.name)

section Members

variable {b : Binding} {v : Value}

theorem emittedSetter_isName (h : IsTally b v) :
    isName (emittedSetter b) = true ∧ emittedSetter b ≠ b.name := by
  have hown : isName (setterName b.name) = true ∧ setterName b.name ≠ b.name :=
    ⟨isName_setterName h.isName, setterName_ne h.isName⟩
  rw [emittedSetter]
  cases hset : b.reuse? .setState b.setter with
  | some s => exact h.setter s (Or.inl hset)
  | none =>
    cases huse : b.reuse? .useState b.setter with
    | some s => exact h.setter s (Or.inr huse)
    | none => exact hown

theorem widgetType?_eq (h : IsTally b v) : widgetType? b = literalType (.literal v) := by
  simp [widgetType?, h.typeHint_eq, h.initial_eq]

theorem assignable_raised (hname : isName b.name = true) (k : Nat) :
    Assignable (raised b.name k) := by
  obtain ⟨c, cs, hs, hc, -⟩ := isName_iff.1 hname
  have hne := digitsOf_ne_nil k
  have hlist : (raised b.name k).toList = b.name.toList ++ ' ' :: '+' :: ' ' :: digitsOf k := by
    simp [raised, showInt]
  refine ⟨?_, ?_, ?_⟩
  · rw [← String.toList_inj.ne, hlist, hs]
    exact List.cons_ne_nil _ _
  · rw [hlist, hs]
    rintro d ⟨⟩
    exact not_isBlank_of_isNameChar (isNameChar_of_isNameStart hc)
  · intro d hd
    have hlast : (digitsOf k).getLast? = some d := by
      rw [hlist] at hd
      simpa [List.getLast?_append, List.getLast?_cons, List.getLast?_eq_some_getLast hne] using hd
    have hdigit : isDigit d = true := isDigit_of_mem_digitsOf (List.mem_of_getLast? hlast)
    refine ⟨not_isBlank_of_isNameChar (by simp [isNameChar, hdigit]), ?_⟩
    rintro rfl
    exact absurd hdigit (by decide)

/-- The field, the setter and the transitions of a binding as they are written. -/
theorem members_setState (h : IsTally b v) :
    (expand b .setState).members =
      ((literalType (.literal v)).getD "var" ++ " " ++ b.name ++ " = " ++ ofValue v ++ ";") ::
        settingMethod
          ("void " ++ emittedSetter b ++ "(" ++ setterParam (literalType (.literal v)) ++ ")")
          (assign b.name "value") ::
        b.transitions.map fun t =>
          settingMethod ("void " ++ t.trigger ++ "(" ++ "" ++ ")") t.mutation := by
  have hinitial : b.widgetInitial? = some (ofValue v) := by
    rw [Binding.widgetInitial?, h.initial_eq]
    rfl
  have htriggers : (b.transitions.map fun t =>
      if (assignedTo? b.name t.mutation).isSome then settingMethod
        ("void " ++ t.trigger ++ "()") t.mutation
      else methodText ("void " ++ t.trigger ++ "()")
        ["// " ++ unconvertedMark ++ " " ++ t.mutation]) =
      b.transitions.map fun t =>
        settingMethod ("void " ++ t.trigger ++ "(" ++ "" ++ ")") t.mutation := by
    refine List.map_congr_left fun t ht => ?_
    obtain ⟨-, -, k, hk⟩ := h.transitions t ht
    have hsignature : "void " ++ t.trigger ++ "(" ++ "" ++ ")" = "void " ++ t.trigger ++ "()" := by
      rw [← String.toList_inj]
      simp
    have hassigned : (assignedTo? b.name t.mutation).isSome = true := by
      rw [hk, assignedTo?_assign (isIdent_of_isName h.isName) (assignable_raised h.isName k),
        Option.isSome_some]
    rw [if_pos hassigned, hsignature]
  have hset : b.name ++ " = value" = assign b.name "value" := by
    rw [← String.toList_inj]
    simp [assign]
  simp only [expand, toSetState, hinitial, widgetType?_eq h, htriggers, hset]
  cases literalType (.literal v) <;> rfl

/-- The methods of a binding. -/
def settingsOf (params : List String) (b : Binding) : List Setting :=
  ⟨emittedSetter b, params, assign b.name "value"⟩ ::
    b.transitions.map fun t => ⟨t.trigger, [], t.mutation⟩

theorem normalizeMutation_settings (h : IsTally b v) (params : List String) :
    ∀ s ∈ settingsOf params b, normalizeMutation (s.mutation ++ ";") =
      some (b.name, s.mutation) := by
  refine List.forall_mem_cons.2 ⟨?_, ?_⟩
  · refine normalizeMutation_assign h.isName ⟨by decide, ?_, ?_⟩
    · rintro c ⟨⟩
      decide
    · rintro c ⟨⟩
      decide
  · intro s hs
    obtain ⟨t, ht, rfl⟩ := List.mem_map.1 hs
    obtain ⟨-, -, k, hk⟩ := h.transitions t ht
    dsimp only
    rw [hk]
    exact normalizeMutation_assign h.isName (assignable_raised h.isName k)

/-- The source of a binding declares its field and its methods. -/
theorem declares_members (h : IsTally b v) {P : Member → Prop}
    (hfield :
    Declares ((literalType (.literal v)).getD "var" ++ " " ++ b.name ++ " = " ++ ofValue v ++ ";")
    P)
    {params : List (String × Word)} {names : List String}
    (hparams : IsParams (setterParam (literalType (.literal v))) params names) :
    List.Forall₂ Declares (expand b .setState).members
      (P :: (settingsOf names b).map Setting.Is) := by
  rw [members_setState h]
  refine .cons hfield (.cons ?_ ?_)
  · obtain ⟨ws, hws⟩ := isStatement_set h.isName
    exact declares_setting (emittedSetter_isName h).1 hparams hws
  · rw [List.map_map, List.forall₂_map_left_iff, List.forall₂_map_right_iff, List.forall₂_same]
    intro t ht
    obtain ⟨hname, -, k, hk⟩ := h.transitions t ht
    obtain ⟨ws, hws⟩ := isStatement_add h.isName k
    rw [← hk] at hws
    exact declares_setting hname isParams_none hws

/-- A field that is no object, with its type or `var`, and the parameter of its setter. -/
theorem declares_plain (h : IsTally b v) (hv : v.kind ≠ .object) :
    (literalType (.literal v)).getD "" ∈ plainTypes ∧
    Declares ((literalType (.literal v)).getD "var" ++ " " ++ b.name ++ " = " ++ ofValue v ++ ";")
      (IsStateField b.name ((literalType (.literal v)).getD "") v) ∧
    ∃ params, IsParams (setterParam (literalType (.literal v))) params ["value"] := by
  have htyped : ∀ type ∈ ["bool", "int", "String", "List"], isName type = true ∧
      type ∉ declarationWords ++ directiveWords ∧ type ∉ ["get", "const", "new", "-"] := by
    decide
  have hcase : ∀ type ∈ ["bool", "int", "String", "List"], literalType (.literal v) = some type →
      (literalType (.literal v)).getD "" ∈ plainTypes ∧
      Declares ((literalType (.literal v)).getD "var" ++ " " ++ b.name ++ " = " ++ ofValue v ++ ";")
        (IsStateField b.name ((literalType (.literal v)).getD "") v) ∧
      ∃ params, IsParams (setterParam (literalType (.literal v))) params ["value"] := by
    intro type hmem htype
    obtain ⟨hname, hfree, hget⟩ := htyped type hmem
    rw [htype]
    have hne : type ≠ "get" := by
      rintro rfl
      exact hget List.mem_cons_self
    exact ⟨List.mem_cons_of_mem _ hmem, declares_typedField hname hfree hne h.isName h.exact, _,
      isParams_typed hname hget⟩
  cases v with
  | null =>
    exact ⟨List.mem_cons_self, declares_varField h.isName h.not_keyword h.exact, _, isParams_value⟩
  | bool => exact hcase "bool" (by decide) rfl
  | int => exact hcase "int" (by decide) rfl
  | float => exact h.exact.elim
  | str => exact hcase "String" (by decide) rfl
  | list => exact hcase "List" (by decide) rfl
  | map => exact absurd rfl hv

/-- A field of objects is taken for another one, and the parameter of its setter for two. -/
theorem declares_object (h : IsTally b v) (hv : v.kind = .object) :
    Declares ((literalType (.literal v)).getD "var" ++ " " ++ b.name ++ " = " ++ ofValue v ++ ";")
      (IsField "String") ∧
    ∃ params, IsParams (setterParam (literalType (.literal v))) params ["String", "value"] := by
  cases v with
  | map entries =>
    have htext : "Map<String, dynamic>" ++ " " ++ b.name = "Map<String, dynamic> " ++ b.name := by
      rw [← String.toList_inj]
      simp
    have hfield := declares_objectField h.isName h.exact
    rw [← htext] at hfield
    exact ⟨hfield, _, isParams_object⟩
  | null | bool | int | float | str | list => cases hv

end Members

/-! ## The class of a state -/

theorem isName_stateClass {widget : String} (h : isName widget = true) :
    isName ("_" ++ widget ++ "State") = true := by
  rw [isName_iff]
  refine ⟨'_', widget.toList ++ "State".toList, by simp, by decide, fun d hd => ?_⟩
  rcases List.mem_append.1 hd with hd | hd
  · exact isNameChar_of_isName h hd
  · exact forall_mem_of_all (p := fun c => isNameChar c = true) (by decide) d hd

/-- The source of the class of a state with its members. -/
def stateSource (widget : String) (members : List String) (indent : String) : String :=
  Writing.classText ("class _" ++ widget ++ "State extends State<" ++ widget ++ ">") members indent

/-- A source that is one class with given members. -/
structure IsClass (text name : String) (s : Source) (c : Member) (ms : List Member) : Prop where
  read_eq : Source.read text = .ok s
  members_eq : s.members = .ok [c]
  kind_eq : c.kind = .classLike
  name_eq : c.name = name
  body_eq : ∃ r, c.body = some r ∧ s.membersIn r = .ok ms

/-- A class around declarations, one below the other, is cut into them. -/
theorem exists_isClass {as : List String} {Ps : List (Member → Prop)}
    (h : List.Forall₂ Declares as Ps) (hne : as ≠ []) {widget : String}
    (hwidget : isName widget = true) {indent : String} (hindent : isIndent indent = true) :
    ∃ s c r ms, IsClass (stateSource widget as indent) ("_" ++ widget ++ "State") s c ms ∧
      ms.length = as.length ∧ MembersMeet Ps ms ∧ c.body = some r ∧
      r.trees = ms.flatMap fun m => m.range.trees := by
  have hlines : List.Forall₂ Declares (as.map (indentLines indent)) Ps := by
    rw [List.forall₂_map_left_iff]
    exact h.imp fun _ _ hd => hd.indent hindent
  have hall :=
    declaresAll_join hlines (by simpa using hne) (by decide : isGap "\n\n" = true) (by decide)
    (g := "\n") (by decide)
  have htext : stateSource widget as indent = stateClassText ("_" ++ widget ++ "State") widget
      ("\n" ++ join "\n\n" (as.map (indentLines indent))) := by
    rw [← String.toList_inj]
    simp [stateSource, Writing.classText, stateClassText]
  obtain ⟨s, c, r, ms, hread, hmembers, hkind, hname, hbody, hms, hmeet, htrees⟩ :=
    members_of_class (isName_stateClass hwidget) hwidget hall
  rw [← htext] at hread
  exact ⟨s, c, r, ms,
    ⟨hread, hmembers, hkind, hname, r, hbody, hms⟩, by
      rw [h.length_eq, hmeet.length_eq], hmeet, hbody, htrees⟩

section Scan

variable {b : Binding} {v : Value} {f : Member} {body : Range}

theorem foldAll_nil (w : WidgetScan) : w.foldAll [] = w := rfl

theorem scanWidget_eq {s : Source} {c : Member} (hbody : c.body = some body) {mutated : List String}
    (hmutated : mutatedNames body = .ok mutated) {bs bs' : Assoc Binding} {kept left : List Member}
    (hfields : liftFields mutated [] ms = .ok (bs, kept))
    (hmethods : liftMethods bs kept = .ok (bs', left)) (declarations : List Member) :
    scanWidget s (some c) ms [] declarations =
      .ok { bindings := bs'.map (·.2), members := left } := by
  simp only [scanWidget, Option.bind_some, hbody, hmutated, hfields, hmethods, WidgetScan.watchAll,
    foldAll_nil, bind, Except.bind, pure, Except.pure]

/-- The field becomes a binding, and the methods its setter and its transitions. -/
theorem lift_tally (h : IsTally b v) {type : String} (hf : IsStateField b.name type v f)
    (htype : type ∈ plainTypes) (hms : MembersMeet ((settingsOf ["value"] b).map Setting.Is) ms) :
    ∃ bs kept,
      liftFields ((settingsOf ["value"] b).map fun _ => b.name) [] (f :: ms) = .ok (bs, kept) ∧
      liftMethods bs kept = .ok ([(b.name, { fieldBinding b.name type v with
        setter := some (emittedSetter b), transitions := b.transitions })], []) := by
  have hholds : holdsState ((settingsOf ["value"] b).map fun _ => b.name) f = true := by
    have hkind : f.kind = .field := hf.kind_eq
    have hname : f.name = b.name := hf.name_eq
    obtain ⟨hstatic, hconst⟩ := hf.not_fixed
    simp [holdsState, hkind, hname, hstatic, hconst, settingsOf]
  have hput : ∀ x : Binding, Assoc.put [] f.name x = [(b.name, x)] := by
    intro x
    have hname : f.name = b.name := hf.name_eq
    simp [Assoc.put, Assoc.has, hname]
  refine ⟨[(b.name, fieldBinding b.name type v)], ms, ?_, ?_⟩
  · simp only [liftFields, hholds, if_true, bindingOfField_eq hf htype, hput,
      liftFields_settings hms, bind, Except.bind]
  · obtain ⟨m, ms, hm, hrest, rfl⟩ := List.forall₂_cons_left_iff.1 hms
    have hnorm := List.forall_mem_cons.1 (normalizeMutation_settings h ["value"])
    have hnew : Assoc.has [(b.name, fieldBinding b.name type v)] (emittedSetter b) = false := by
      simp [Assoc.has, List.lookup_cons, beq_eq_false_iff_ne.2 (emittedSetter_isName h).2]
    rw [liftMethods_cons hm hnew (liftMethod_setter hm rfl rfl hnorm.1),
      liftMethods_transitions hrest hnorm.2]
    · have htransitions : (b.transitions.map fun t => (⟨t.trigger, [], t.mutation⟩ : Setting)).map
          (fun s => (⟨s.name, s.mutation⟩ : Transition)) = b.transitions := by
        rw [List.map_map]
        exact List.map_id _
      rw [htransitions]
      rfl
    · simp
    · intro s hs
      obtain ⟨t, ht, rfl⟩ := List.mem_map.1 hs
      exact (h.transitions t ht).2.1

/-- A field of another name stays, and so do all methods. -/
theorem lift_others {name : String} (hname : name ≠ b.name) (hf : IsField name f) (h : IsTally b v)
    {names : List String} (hms : MembersMeet ((settingsOf names b).map Setting.Is) ms) :
    liftFields ((settingsOf names b).map fun _ => b.name) [] (f :: ms) = .ok ([], f :: ms) ∧
      liftMethods [] (f :: ms) = .ok ([], f :: ms) := by
  have hholds : holdsState ((settingsOf names b).map fun _ => b.name) f = false := by
    have hfname : f.name = name := hf.name_eq
    simp [holdsState, hfname, hname]
  have hkind : (f.kind != .method) = true := by
    rw [hf.kind_eq]
    rfl
  constructor
  · simp only [liftFields, hholds, Bool.false_eq_true, if_false, liftFields_settings hms, bind,
      Except.bind, pure, Except.pure]
  · simp only [liftMethods, hkind, Bool.true_or, if_true,
      liftMethods_others hms (normalizeMutation_settings h names), bind, Except.bind, pure,
      Except.pure]

section Class

variable {widget indent : String}

theorem members_ne_nil (h : IsTally b v) : (expand b .setState).members ≠ [] := by
  rw [members_setState h]
  exact List.cons_ne_nil _ _

/-- A tally that is no object is taken out of its class again, and no member stays. -/
theorem scan_plain (h : IsTally b v) (hv : v.kind ≠ .object) (hwidget : isName widget = true)
    (hindent : isIndent indent = true) :
    ∃ s c ms, IsClass (stateSource widget (expand b .setState).members indent)
        ("_" ++ widget ++ "State")
        s c ms ∧ ms.length = (expand b .setState).members.length ∧
      scanWidget s (some c) ms [] [c] = .ok
        { bindings := [{ kind := .local, name := b.name, initial := b.initial
                         transitions := b.transitions, setter := (expand b .setState).setter
                         typeHint := widgetType? b, idiom := some "setState" }] } := by
  obtain ⟨htype, hfield, params, hparams⟩ := declares_plain h hv
  obtain ⟨s, c, r, ms, hclass, hlength, hmeet, hbody, htrees⟩ :=
    exists_isClass (declares_members h hfield hparams) (members_ne_nil h) hwidget hindent
  refine ⟨s, c, ms, hclass, hlength, ?_⟩
  obtain ⟨f, rest, hf, hrest, rfl⟩ := List.forall₂_cons_left_iff.1 hmeet
  have hmutated := mutatedNames_settings hf.toIsField hrest (normalizeMutation_settings h _) htrees
  obtain ⟨bs, kept, hfields, hmethods⟩ := lift_tally h hf htype hrest
  rw [scanWidget_eq hbody hmutated hfields hmethods [c], List.map_singleton, h.initial_eq,
    widgetType?_eq h]
  cases v <;> rfl

/-- Of a tally that is an object nothing is found, and all members stay. -/
theorem scan_object (h : IsTally b v) (hv : v.kind = .object) (hwidget : isName widget = true)
    (hindent : isIndent indent = true) :
    ∃ s c ms, IsClass (stateSource widget (expand b .setState).members indent)
        ("_" ++ widget ++ "State")
        s c ms ∧ ms.length = (expand b .setState).members.length ∧
      scanWidget s (some c) ms [] [c] = .ok { members := ms } := by
  obtain ⟨hfield, params, hparams⟩ := declares_object h hv
  obtain ⟨s, c, r, ms, hclass, hlength, hmeet, hbody, htrees⟩ :=
    exists_isClass (declares_members h hfield hparams) (members_ne_nil h) hwidget hindent
  refine ⟨s, c, ms, hclass, hlength, ?_⟩
  obtain ⟨f, rest, hf, hrest, rfl⟩ := List.forall₂_cons_left_iff.1 hmeet
  have hmutated := mutatedNames_settings hf hrest (normalizeMutation_settings h _) htrees
  have hlower : "String" ≠ b.name := by
    intro heq
    have hfirst := h.lower
    rw [← heq] at hfirst
    exact absurd hfirst (by decide)
  obtain ⟨hfields, hmethods⟩ := lift_others hlower hf h hrest
  exact scanWidget_eq hbody hmutated hfields hmethods [c]

end Class

end Scan

/-- A tally is taken out of its class again with its name, its first value, its setter and its
transitions, and no member stays, unless its first value is an object; then all members stay. -/
theorem scanWidget_setState {b : Binding} {v : Value} (h : IsTally b v) {widget : String}
    (hwidget : isName widget = true) {indent : String} (hindent : isIndent indent = true) :
    ∃ s c ms, IsClass (stateSource widget (expand b .setState).members indent)
        ("_" ++ widget ++ "State")
        s c ms ∧ ms.length = (expand b .setState).members.length ∧
      (v.kind ≠ .object → scanWidget s (some c) ms [] [c] = .ok
        { bindings := [{ kind := .local, name := b.name, initial := b.initial
                         transitions := b.transitions, setter := (expand b .setState).setter
                         typeHint := widgetType? b, idiom := some "setState" }] }) ∧
      (v.kind = .object → scanWidget s (some c) ms [] [c] = .ok { members := ms }) := by
  by_cases hv : v.kind = .object
  · obtain ⟨s, c, ms, hclass, hlength, hscan⟩ := scan_object h hv hwidget hindent
    exact ⟨s, c, ms, hclass, hlength, fun hother => absurd hv hother, fun _ => hscan⟩
  · obtain ⟨s, c, ms, hclass, hlength, hscan⟩ := scan_plain h hv hwidget hindent
    exact ⟨s, c, ms, hclass, hlength, fun _ => hscan, fun hobject => absurd hobject hv⟩

/-- A counter that starts at zero. -/
def counter : Binding where
  kind := .local
  name := "count"
  initial := some (.literal (.int 0))
  transitions := [⟨"increment", "count = count + 1"⟩, ⟨"skip", "count = count + 10"⟩]

theorem isTally_counter : IsTally counter (.int 0) := by
  refine ⟨rfl, by decide, by decide, by decide, rfl, rfl,
    trivial, by simp [counter, Binding.reuse?], ?_⟩
  intro t ht
  simp only [counter, List.mem_cons, List.not_mem_nil, or_false] at ht
  rcases ht with rfl | rfl
  · exact ⟨by decide, by decide, 1, rfl⟩
  · exact ⟨by decide, by decide, 10, rfl⟩

/-- The counter is found again. -/
theorem scanWidget_setState_counter :
    IsTally counter (.int 0) ∧ ∃ s c ms,
      IsClass (stateSource "Tally" (expand counter .setState).members "  ") "_TallyState" s c ms ∧
      scanWidget s (some c) ms [] [c] = .ok
        { bindings := [{ counter with
            setter := some "setCount", typeHint := some "int", idiom := some "setState" }] } := by
  obtain ⟨s, c, ms, hclass, -, hscan, -⟩ :=
    scanWidget_setState isTally_counter (by decide : isName "Tally" = true)
      (by decide : isIndent "  " = true)
  exact ⟨isTally_counter, s, c, ms, hclass, hscan (by decide)⟩

/-- A state that is an object at first, and changes in no way but by its setter. -/
def record : Binding where
  kind := .local
  name := "data"
  initial := some (.literal (.map [("a", .int 1)]))

/-- The record is lost: its class has no state, and keeps its field and its setter. -/
theorem scanWidget_setState_record :
    IsTally record (.map [("a", .int 1)]) ∧ ∃ s c ms,
      IsClass (stateSource "Box" (expand record .setState).members "  ") "_BoxState" s c ms ∧
      ms.length = 2 ∧ scanWidget s (some c) ms [] [c] = .ok { bindings := [], members := ms } := by
  have hrecord : IsTally record (.map [("a", .int 1)]) := by
    refine ⟨rfl, by decide, by decide, by decide, rfl, rfl, ?_, by simp [record, Binding.reuse?],
      by simp [record]⟩
    simp [Exact, ExactEntries]
  obtain ⟨s, c, ms, hclass, hlength, hscan⟩ :=
    scan_object hrecord rfl (by decide : isName "Box" = true) (by decide : isIndent "  " = true)
  exact ⟨hrecord, s, c, ms, hclass, hlength, hscan⟩

end WidgetBridge.State
