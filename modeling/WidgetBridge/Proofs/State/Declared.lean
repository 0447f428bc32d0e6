import Mathlib.Data.List.Perm.Basic
import WidgetBridge.Proofs.Text.CharClass
import WidgetBridge.Proofs.Text.Layout
import WidgetBridge.Proofs.WidgetGrammar.Boundary
import WidgetBridge.State.Expansion

/-!
# Names that component state declares

The locals of a component's bindings end up in one function body, so every name may be declared
there only once.  `declaredNames` reads the names of a `const` line off its text.  A binding
declares its own name, the function that changes it, if it has one, and its triggers
(`declared_componentForm`).  The names and triggers come with the bindings, the functions are
invented for each binding alone.  A name is therefore declared twice exactly if two bindings have
the same function or a function is called like a name or a trigger (`nodup_declared_iff`); two
stores with a transition each do have the same one (`not_nodup_declared_stores`).
-/

namespace WidgetBridge.State

open WidgetBridge.Text

/-! ## Reading a declaration -/

/-- The names that a line declares: `x` in `const x = …`, and `x` and `y` in `const [x, y] = …`. -/
def declaredNames (line : String) : List String :=
  match dropHead? "const ".toList line.toList with
  | some ('[' :: cs) =>
    (splitChars ',' (cs.takeWhile (· != ']'))).map fun part => String.ofList (trimChars part)
  | some cs => [String.ofList (cs.takeWhile (· != ' '))]
  | none => []

/-- Whether a text can stand as a name in a declaration. -/
def isPlainName (name : String) : Bool :=
  name.toList.all fun c => !isBlank c && c != ',' && c != '[' && c != ']'

theorem isPlainName_iff {name : String} :
    isPlainName name = true ↔
      ∀ c ∈ name.toList, isBlank c = false ∧ c ≠ ',' ∧ c ≠ '[' ∧ c ≠ ']' := by
  simp [isPlainName, and_assoc]

theorem declaredNames_of_single {line x : String} {rest : List Char} (hx : isPlainName x = true)
    (h : line.toList = "const ".toList ++ (x.toList ++ ' ' :: rest)) :
    declaredNames line = [x] := by
  rw [isPlainName_iff] at hx
  have hname : (x.toList ++ ' ' :: rest).takeWhile (· != ' ') = x.toList := by
    apply WidgetGrammar.takeWhile_append_of_all
    · intro c hc
      have hblank := (hx c hc).1
      rw [bne_iff_ne]
      rintro rfl
      exact absurd hblank (by decide)
    · simp
  unfold declaredNames
  rw [h, dropHead?_append]
  split
  · next cs heq =>
    -- a bracket would be the first character of the name
    exfalso
    cases hcs : x.toList with
    | nil => simp [hcs] at heq
    | cons c ds =>
      have hc : c = '[' := by simpa [hcs] using congrArg (Option.map List.head?) heq
      exact (hx c (by simp [hcs])).2.2.1 hc
  · next cs _ heq =>
    cases heq
    rw [hname, String.ofList_toList]
  · next heq => cases heq

theorem declaredNames_of_pair {line x y : String} {rest : List Char} (hx : isPlainName x = true)
    (hy : isPlainName y = true)
    (h : line.toList =
      "const ".toList ++ '[' :: ((x.toList ++ ',' :: ' ' :: y.toList) ++ ']' :: rest)) :
    declaredNames line = [x, y] := by
  rw [isPlainName_iff] at hx hy
  have hpair : ((x.toList ++ ',' :: ' ' :: y.toList) ++ ']' :: rest).takeWhile (· != ']') =
      x.toList ++ ',' :: ' ' :: y.toList := by
    apply WidgetGrammar.takeWhile_append_of_all
    · intro c hc
      rw [bne_iff_ne]
      rcases List.mem_append.1 hc with hc | hc
      · exact (hx c hc).2.2.2
      · simp only [List.mem_cons] at hc
        rcases hc with rfl | rfl | hc
        · decide
        · decide
        · exact (hy c hc).2.2.2
    · simp
  have hsplit : splitChars ',' (x.toList ++ ',' :: ' ' :: y.toList) =
      [x.toList, ' ' :: y.toList] := by
    rw [splitChars_append_cons, splitChars_of_not_mem, splitChars_of_not_mem]
    · rfl
    · intro hc
      rcases List.mem_cons.1 hc with hc | hc
      · exact absurd hc (by decide)
      · exact (hy _ hc).2.1 rfl
    · exact fun hc => (hx _ hc).2.1 rfl
  have htrim : trimChars (' ' :: y.toList) = y.toList := by
    have hblank : isBlank ' ' = true := by decide
    have hrest := trimChars_of_no_blank fun c hc => (hy c hc).1
    unfold trimChars trimStartChars at hrest ⊢
    rwa [List.dropWhile_cons_of_pos hblank]
  unfold declaredNames
  rw [h, dropHead?_append]
  simp only [hpair, hsplit, List.map_cons, List.map_nil, htrim,
    trimChars_of_no_blank fun c hc => (hx c hc).1, String.ofList_toList]

theorem declaredNames_comment (s : String) : declaredNames ("// " ++ s) = [] := by
  have hhead : dropHead? "const ".toList ("// " ++ s).toList = none := by
    rw [String.toList_append]
    exact dropHead?_cons_of_ne (by decide) _ _
  unfold declaredNames
  rw [hhead]

/-! ## One binding -/

/-- The idiom of a kind of state in a component, by default. -/
def Kind.componentIdiom : Kind → Idiom
  | .local => .useState
  | .reducer => .useReducer
  | .externalStore => .storeHook
  | .contextDerived => .contextHook

/-- A binding as a component writes it by default. -/
def Binding.componentForm (b : Binding) : Fragment := expand b b.kind.componentIdiom

/-- The triggers that a component declares: state from the surroundings has none. -/
def Binding.componentTriggers (b : Binding) : List String :=
  match b.kind with
  | .contextDerived => []
  | _ => b.transitions.map (·.trigger)

/-- The names that a binding declares in a component. -/
def Binding.declared (b : Binding) : List String :=
  b.name :: (b.componentForm.setter.toList ++ b.componentTriggers)

theorem expandFor_default (b : Binding) :
    expandFor {} "componentModel" b = .ok b.componentForm := by
  cases hk : b.kind <;>
    simp [expandFor, configuredIdiom, hk, Assoc.get?, Kind.name, Binding.componentForm,
      Kind.componentIdiom, Idiom.ofName?, Idiom.framework, Framework.name, List.lookup_cons] <;>
    rfl

theorem expandAll_default (bs : List Binding) :
    expandAll {} "componentModel" bs = .ok (bs.map Binding.componentForm) := by
  induction bs with
  | nil => rfl
  | cons b bs ih =>
    unfold expandAll at ih ⊢
    rw [List.mapM_cons, expandFor_default, ih]
    rfl

/-- Trigger lines declare the triggers, whatever the triggers do. -/
theorem declared_triggers {ts : List Transition} {line : Transition → String}
    (hline : ∀ t, ∃ rest, (line t).toList = "const ".toList ++ (t.trigger.toList ++ ' ' :: rest))
    (hplain : ∀ n ∈ ts.map (·.trigger), isPlainName n = true) :
    (ts.map line).flatMap declaredNames = ts.map (·.trigger) := by
  induction ts with
  | nil => rfl
  | cons t ts ih =>
    simp only [List.map_cons, List.mem_cons, forall_eq_or_imp] at hplain
    obtain ⟨rest, hrest⟩ := hline t
    rw [List.map_cons, List.flatMap_cons, declaredNames_of_single hplain.1 hrest, ih hplain.2]
    rfl

theorem declared_toUseState {b : Binding} {setter : String}
    (hset : (toUseState b).setter = some setter) (hname : isPlainName b.name = true)
    (hsetter : isPlainName setter = true)
    (htriggers : ∀ n ∈ b.transitions.map (·.trigger), isPlainName n = true) :
    (toUseState b).locals.flatMap declaredNames =
      b.name :: setter :: b.transitions.map (·.trigger) := by
  simp only [toUseState, Option.some.injEq] at hset
  simp only [toUseState, hset]
  rw [List.flatMap_cons, declaredNames_of_pair hname hsetter (by simp; rfl),
    declared_triggers _ htriggers]
  · rfl
  · intro t
    split
    · exact ⟨_, by simp; rfl⟩
    · exact ⟨_, by simp; rfl⟩

theorem declared_toUseReducer {b : Binding} {setter : String}
    (hset : (toUseReducer b).setter = some setter) (hname : isPlainName b.name = true)
    (hsetter : isPlainName setter = true)
    (htriggers : ∀ n ∈ b.transitions.map (·.trigger), isPlainName n = true) :
    (toUseReducer b).locals.flatMap declaredNames =
      b.name :: setter :: b.transitions.map (·.trigger) := by
  simp only [toUseReducer, Option.some.injEq] at hset
  simp only [toUseReducer, hset]
  rw [List.flatMap_cons, declaredNames_of_pair hname hsetter (by simp; rfl),
    declared_triggers _ htriggers]
  · rfl
  · exact fun t => ⟨_, by simp; rfl⟩

/-- A store reads the state first, and what changes it follows. -/
theorem toStoreHook_eq {b : Binding} (hname : isPlainName b.name = true) :
    ∃ (base : Fragment) (imports : ModuleNames) (action : Transition → String),
      base.locals.flatMap declaredNames = [b.name] ∧ base.setter = none ∧
      toStoreHook b =
        if (nonEmpty? b.setter).isSome || !b.transitions.isEmpty then
          let dispatch := (b.reuse? .storeHook b.setter).getD "dispatch"
          { base with
            imports
            locals := base.locals ++ ["const " ++ dispatch ++ " = useDispatch();"] ++
              b.transitions.map fun t =>
                "const " ++ t.trigger ++ " = () => " ++ dispatch ++ "(" ++ action t ++ ");"
            setter := some dispatch }
        else base := by
  refine ⟨_, _, _, ?_, ?_, rfl⟩
  · rw [List.flatMap_append, List.flatMap_singleton, declaredNames_of_single hname (by simp; rfl)]
    -- a first value that is lost stands in a comment in front
    split
    · simp only [String.append_assoc, List.flatMap_cons, declaredNames_comment, List.flatMap_nil,
        List.append_nil, List.nil_append]
    · rfl
  · rfl

theorem declared_toStoreHook {b : Binding} (hname : isPlainName b.name = true)
    (hsetter : ∀ n ∈ (toStoreHook b).setter, isPlainName n = true)
    (htriggers : ∀ n ∈ b.transitions.map (·.trigger), isPlainName n = true) :
    (toStoreHook b).locals.flatMap declaredNames =
      b.name :: ((toStoreHook b).setter.toList ++ b.transitions.map (·.trigger)) := by
  obtain ⟨base, imports, action, hbase, hnone, heq⟩ := toStoreHook_eq hname
  rw [heq] at hsetter ⊢
  by_cases hchanged : ((nonEmpty? b.setter).isSome || !b.transitions.isEmpty) = true
  · rw [if_pos hchanged] at hsetter ⊢
    rw [List.flatMap_append, List.flatMap_append, hbase, List.flatMap_singleton,
      declaredNames_of_single (hsetter _ rfl) (by simp; rfl),
      declared_triggers (fun t => ⟨_, by simp; rfl⟩) htriggers]
    rfl
  · rw [if_neg hchanged]
    have hempty : b.transitions = [] := by
      simp only [Bool.or_eq_true, not_or, Bool.not_eq_true', Bool.not_eq_false] at hchanged
      exact List.isEmpty_iff.1 hchanged.2
    rw [hbase, hnone, hempty]
    rfl

theorem declared_toContextHook {b : Binding} (hname : isPlainName b.name = true) :
    (toContextHook b).locals.flatMap declaredNames = [b.name] := by
  simp only [toContextHook, List.flatMap_cons, List.flatMap_nil, List.append_nil]
  exact declaredNames_of_single hname (by simp; rfl)

/-- The locals of a binding declare its name, the function that changes it and its triggers. -/
theorem declared_componentForm {b : Binding} (h : ∀ n ∈ b.declared, isPlainName n = true) :
    b.componentForm.locals.flatMap declaredNames = b.declared := by
  simp only [Binding.declared, List.mem_cons, List.mem_append, Option.mem_toList, or_imp,
    forall_and, forall_eq] at h
  obtain ⟨hname, hsetter, htriggers⟩ := h
  cases hk : b.kind with
  | «local» =>
    simp only [Binding.declared, Binding.componentForm, Binding.componentTriggers, hk,
      Kind.componentIdiom, expand] at hsetter htriggers ⊢
    exact declared_toUseState rfl hname (hsetter _ rfl) htriggers
  | reducer =>
    simp only [Binding.declared, Binding.componentForm, Binding.componentTriggers, hk,
      Kind.componentIdiom, expand] at hsetter htriggers ⊢
    exact declared_toUseReducer rfl hname (hsetter _ rfl) htriggers
  | externalStore =>
    simp only [Binding.declared, Binding.componentForm, Binding.componentTriggers, hk,
      Kind.componentIdiom, expand] at hsetter htriggers ⊢
    exact declared_toStoreHook hname hsetter htriggers
  | contextDerived =>
    simp only [Binding.declared, Binding.componentForm, Binding.componentTriggers, hk,
      Kind.componentIdiom, expand]
    exact declared_toContextHook hname

/-! ## All bindings of a component -/

/-- The triggers of a binding. -/
def Binding.triggers (b : Binding) : List String := b.transitions.map (·.trigger)

/-- Whether a name looks like one that is invented for a function. -/
def isInvented (name : String) : Bool := name == "dispatch" || hasHead name "set"

/-- Bindings whose names and triggers all differ, and none of which looks invented. -/
structure Distinct (bs : List Binding) : Prop where
  names : (bs.map (·.name)).Nodup
  triggers : (bs.flatMap (·.triggers)).Nodup
  apart : ∀ n ∈ bs.map (·.name), n ∉ bs.flatMap (·.triggers)
  ordinary : ∀ n ∈ bs.map (·.name) ++ bs.flatMap (·.triggers), isInvented n = false

theorem componentTriggers_sublist (b : Binding) : b.componentTriggers.Sublist b.triggers := by
  unfold Binding.componentTriggers
  split
  · exact List.nil_sublist _
  · exact List.Sublist.refl _

theorem flatMap_componentTriggers_sublist (bs : List Binding) :
    (bs.flatMap (·.componentTriggers)).Sublist (bs.flatMap (·.triggers)) := by
  induction bs with
  | nil => exact List.Sublist.refl _
  | cons b bs ih =>
    rw [List.flatMap_cons, List.flatMap_cons]
    exact (componentTriggers_sublist b).append ih

theorem declared_locals {bs : List Binding} (h : ∀ b ∈ bs, ∀ n ∈ b.declared, isPlainName n = true) :
    ((bs.map Binding.componentForm).flatMap (·.locals)).flatMap declaredNames =
      bs.flatMap (·.declared) := by
  rw [List.flatMap_map, List.flatMap_assoc]
  exact List.flatMap_congr fun b hb => declared_componentForm (h b hb)

/-- The names, the functions and the triggers, each kind on its own. -/
theorem declared_perm (bs : List Binding) :
    (bs.flatMap (·.declared)).Perm (bs.map (·.name) ++
      ((bs.map Binding.componentForm).filterMap (·.setter) ++
        bs.flatMap (·.componentTriggers))) := by
  have hsetters : bs.flatMap (fun b => b.componentForm.setter.toList) =
      (bs.map Binding.componentForm).filterMap (·.setter) := by
    rw [List.filterMap_map, ← List.filterMap_eq_flatMap_toList]
    rfl
  have hnames : bs.flatMap (fun b => [b.name]) = bs.map (·.name) := List.map_eq_flatMap.symm
  have hrest := List.flatMap_append_perm bs (fun b => b.componentForm.setter.toList)
    (fun b => b.componentTriggers)
  have hall := List.flatMap_append_perm bs (fun b => [b.name])
    (fun b => b.componentForm.setter.toList ++ b.componentTriggers)
  rw [hsetters] at hrest
  rw [hnames] at hall
  exact hall.symm.trans (hrest.symm.append_left _)

/-- No name is declared twice in a component exactly if the functions that change state differ from
each other and, where they do not look invented, from the names and the triggers. -/
theorem nodup_declared_iff {bs : List Binding} (hbs : Distinct bs)
    (hplain : ∀ b ∈ bs, ∀ n ∈ b.declared, isPlainName n = true) :
    ∃ fs, expandAll {} "componentModel" bs = .ok fs ∧
      (((fs.flatMap (·.locals)).flatMap declaredNames).Nodup ↔
        (fs.filterMap (·.setter)).Nodup ∧
        ∀ u ∈ fs.filterMap (·.setter), isInvented u = false →
          u ∉ bs.map (·.name) ∧ u ∉ bs.flatMap (·.componentTriggers)) := by
  refine ⟨_, expandAll_default bs, ?_⟩
  have hsub := flatMap_componentTriggers_sublist bs
  rw [declared_locals hplain, (declared_perm bs).nodup_iff, List.nodup_append, List.nodup_append]
  constructor
  · rintro ⟨-, ⟨hsetters, -, htriggers⟩, hnames⟩
    refine ⟨hsetters, fun u hu _ => ⟨fun hn => ?_, fun ht => htriggers u hu u ht rfl⟩⟩
    exact hnames u hn u (List.mem_append_left _ hu) rfl
  · rintro ⟨hsetters, hfree⟩
    -- what looks invented is no name and no trigger by assumption
    have hclash (u : String) (hu : u ∈ (bs.map Binding.componentForm).filterMap (·.setter)) :
        u ∉ bs.map (·.name) ∧ u ∉ bs.flatMap (·.componentTriggers) := by
      by_cases hinv : isInvented u = false
      · exact hfree u hu hinv
      · exact ⟨fun hn => hinv (hbs.ordinary u (List.mem_append_left _ hn)),
          fun ht => hinv (hbs.ordinary u (List.mem_append_right _ (hsub.subset ht)))⟩
    refine ⟨hbs.names, ⟨hsetters, hbs.triggers.sublist hsub, ?_⟩, ?_⟩
    · rintro u hu _ ht rfl
      exact (hclash u hu).2 ht
    rintro n hn _ hrest rfl
    rcases List.mem_append.1 hrest with hu | ht
    · exact (hclash n hu).1 hn
    · exact hbs.apart n hn (hsub.subset ht)

/-- A counter in the component and a list in a store. -/
def counterAndItems : List Binding :=
  [{ kind := .local, name := "count", transitions := [⟨"increment", "count = count + 1"⟩] },
    { kind := .externalStore, name := "items", transitions := [⟨"clear", "items = []"⟩] }]

theorem nodup_declared_iff_counterAndItems :
    Distinct counterAndItems ∧
    (∀ b ∈ counterAndItems, ∀ n ∈ b.declared, isPlainName n = true) ∧
    ∃ fs, expandAll {} "componentModel" counterAndItems = .ok fs ∧
      ((fs.flatMap (·.locals)).flatMap declaredNames).Nodup := by
  have hdistinct : Distinct counterAndItems := by
    constructor <;> decide
  have hplain : ∀ b ∈ counterAndItems, ∀ n ∈ b.declared, isPlainName n = true := by decide
  obtain ⟨fs, hfs, hiff⟩ := nodup_declared_iff hdistinct hplain
  refine ⟨hdistinct, hplain, fs, hfs, hiff.2 ?_⟩
  rw [expandAll_default] at hfs
  cases hfs
  decide

/-- The user and the list of a store, each with a transition. -/
def userAndItems : List Binding :=
  [{ kind := .externalStore, name := "user", transitions := [⟨"logout", "user = null"⟩] },
    { kind := .externalStore, name := "items", transitions := [⟨"clear", "items = []"⟩] }]

/-- Two stores that can change both declare `dispatch`. -/
theorem not_nodup_declared_stores :
    Distinct userAndItems ∧
    ∃ fs, expandAll {} "componentModel" userAndItems = .ok fs ∧
      (fs.flatMap (·.locals)).flatMap declaredNames =
        ["user", "dispatch", "logout", "items", "dispatch", "clear"] ∧
      ¬ ((fs.flatMap (·.locals)).flatMap declaredNames).Nodup := by
  have hplain : ∀ b ∈ userAndItems, ∀ n ∈ b.declared, isPlainName n = true := by decide
  have hnames : ((userAndItems.map Binding.componentForm).flatMap (·.locals)).flatMap
      declaredNames =
      ["user", "dispatch", "logout", "items", "dispatch", "clear"] := by
    rw [declared_locals hplain]
    decide
  refine ⟨by constructor <;> decide, _, expandAll_default _, hnames, ?_⟩
  rw [hnames]
  decide

end WidgetBridge.State
