import WidgetBridge.ComponentGrammar.Literal
import WidgetBridge.Config.Settings
import WidgetBridge.Framework
import WidgetBridge.Imports
import WidgetBridge.State.Typing
import WidgetBridge.WidgetGrammar.Literal

/-!
# Writing state

A binding is written in an idiom of the target framework. Each idiom says which pieces of source it
needs: imports, declarations of the module, members of the class, and locals of the body.
-/

namespace WidgetBridge.State

open WidgetBridge.Text

/-- The idioms in which state is written. -/
inductive Idiom where
  | useState
  | useReducer
  | storeHook
  | contextHook
  | setState
  | bloc
  | riverpod
  | inheritedLookup
  deriving Repr, DecidableEq, Inhabited

namespace Idiom

/-- The name of an idiom. -/
def name : Idiom → String
  | .useState => "useState"
  | .useReducer => "useReducer"
  | .storeHook => "storeHook"
  | .contextHook => "contextHook"
  | .setState => "setState"
  | .bloc => "bloc"
  | .riverpod => "riverpod"
  | .inheritedLookup => "inheritedLookup"

/-- The idiom of a name. -/
def ofName? : String → Option Idiom
  | "useState" => some .useState
  | "useReducer" => some .useReducer
  | "storeHook" => some .storeHook
  | "contextHook" => some .contextHook
  | "setState" => some .setState
  | "bloc" => some .bloc
  | "riverpod" => some .riverpod
  | "inheritedLookup" => some .inheritedLookup
  | _ => none

/-- The framework of an idiom. -/
def framework : Idiom → Framework
  | .useState | .useReducer | .storeHook | .contextHook => .component
  | .setState | .bloc | .riverpod | .inheritedLookup => .widget

end Idiom

/-- The class that a binding needs around the body. -/
inductive Host where
  | stateless
  | stateful
  | consumer
  deriving Repr, DecidableEq, Inhabited

/-- The name of a host. -/
def Host.name : Host → String
  | .stateless => "stateless"
  | .stateful => "stateful"
  | .consumer => "consumer"

/-- The pieces of source of a binding. -/
structure Fragment where
  imports : ModuleNames := []
  /-- For the module. -/
  declarations : List String := []
  /-- For the class. -/
  members : List String := []
  /-- For the start of the body. -/
  locals : List String := []
  accessor : String := ""
  setter : Option String := none
  host : Host := .stateless
  deriving Inhabited

/-! ## Common parts -/

/-- A text that says something. -/
def nonEmpty? (s : Option String) : Option String :=
  match s with
  | some t => if t.isEmpty then none else some t
  | none => none

/-- What a binding already calls something, if it was written in an idiom. -/
def Binding.reuse? (b : Binding) (idiom : Idiom) (value : Option String) : Option String :=
  if b.idiom == some idiom.name then nonEmpty? value else none

/-- The first value as component source. -/
def Binding.componentInitial (b : Binding) : String :=
  (b.initial.map ComponentGrammar.ofProp).getD ""

/-- The first value as widget source. -/
def Binding.widgetInitial? (b : Binding) : Option String := b.initial.map WidgetGrammar.ofProp

private def orDefault (s : Option String) (fallback : String) : String :=
  (nonEmpty? s).getD fallback

private def angled (t : Option String) : String :=
  match t with
  | some t => "<" ++ t ++ ">"
  | none => ""

/-! ## Component idioms -/

/-- State in a hook. -/
def toUseState (b : Binding) : Fragment :=
  let setter := (b.reuse? .useState b.setter).getD (setterName b.name)
  let declared := "const [" ++ b.name ++ ", " ++ setter ++ "] = useState" ++
    angled (componentType? b) ++ "(" ++ b.componentInitial ++ ");"
  let triggers := b.transitions.map fun t =>
    match assignedTo? b.name t.mutation with
    | some v => "const " ++ t.trigger ++ " = () => " ++ setter ++ "(" ++ v ++ ");"
    | none => "const " ++ t.trigger ++ " = () => \x7b " ++ t.mutation ++ "; \x7d;"
  { imports := [("react", ["useState"])], locals := declared :: triggers, accessor := b.name
    setter := some setter }

/-- A reducer whose cases return the next state. -/
def reducerText (name : String) (cases : List (String × String)) : String :=
  join "\n" (["function " ++ name ++ "(state, action) \x7b", "  switch (action.type) \x7b"] ++
    cases.flatMap (fun c => ["    case '" ++ c.1 ++ "':", "      return " ++ c.2 ++ ";"]) ++
    ["    default:", "      return state;", "  \x7d", "\x7d"])

/-- State behind a reducer. -/
def toUseReducer (b : Binding) : Fragment :=
  let dispatch := (b.reuse? .useReducer b.setter).getD "dispatch"
  let own := b.reuse? .useReducer b.reducer
  let reducer := own.getD (lowerFirst (bareName b.name) ++ "Reducer")
  let declared := "const [" ++ b.name ++ ", " ++ dispatch ++ "] = useReducer(" ++ reducer ++
    ", " ++ orDefault (some b.componentInitial) "undefined" ++ ");"
  let triggers := b.transitions.map fun t =>
    "const " ++ t.trigger ++ " = () => " ++ dispatch ++ "(" ++
      (match assignedTo? b.name t.mutation with
        | some _ => "\x7b type: '" ++ t.trigger ++ "' \x7d"
        | none => t.mutation) ++ ");"
  let cases := b.transitions.filterMap fun t =>
    (assignedTo? b.name t.mutation).map fun v => (t.trigger, renameIdentifier v b.name "state")
  { imports := [("react", ["useReducer"])], locals := declared :: triggers, accessor := b.name
    setter := some dispatch
    declarations := if cases.isEmpty && own.isSome then [] else [reducerText reducer cases] }

/-- State in a store outside. -/
def toStoreHook (b : Binding) : Fragment :=
  let own := b.idiom == some Idiom.storeHook.name
  let source := b.initial.bind PropValue.source?
  let selector := match own, source with
    | true, some s => s
    | _, _ => "(state) => state." ++ b.name
  let hook := (b.reuse? .storeHook b.hook).getD "useSelector"
  let lost := match own, source with
    | false, some s => ["// " ++ unconvertedMark ++ " initial " ++ b.name ++ " = " ++ s]
    | _, _ => []
  let declared := "const " ++ b.name ++ " = " ++ hook ++ "(" ++ selector ++ ");"
  let imports : ModuleNames := if hook == "useSelector" then [("react-redux", [hook])] else []
  let base : Fragment := { imports, locals := lost ++ [declared], accessor := b.name }
  if (nonEmpty? b.setter).isSome || !b.transitions.isEmpty then
    let dispatch := (b.reuse? .storeHook b.setter).getD "dispatch"
    let triggers := b.transitions.map fun t =>
      let action := match assignedTo? b.name t.mutation with
        | some v => storeAction b.name v
        | none => t.mutation
      "const " ++ t.trigger ++ " = () => " ++ dispatch ++ "(" ++ action ++ ");"
    { base with
      imports := ModuleNames.add imports "react-redux" ["useDispatch"]
      locals := base.locals ++ ["const " ++ dispatch ++ " = useDispatch();"] ++ triggers
      setter := some dispatch }
  else base

/-- State from the surroundings. -/
def toContextHook (b : Binding) : Fragment :=
  let context := match b.initial with
    | some (.expr s) => s
    | _ => contextType b.typeHint b.name ++ "Context"
  { imports := [("react", ["useContext"])], accessor := b.name
    locals := ["const " ++ b.name ++ " = useContext(" ++ context ++ ");"] }

/-! ## Widget idioms -/

/-- A method. -/
def methodText (signature : String) (body : List String) : String :=
  join "\n" ([signature ++ " \x7b"] ++ body.map (fun l => "  " ++ l) ++ ["\x7d"])

/-- A method that sets state. -/
def settingMethod (signature mutation : String) : String :=
  methodText signature ["setState(() \x7b", "  " ++ mutation ++ ";", "\x7d);"]

private def typedParam (type : Option String) : String :=
  match type with
  | some t => t ++ " value"
  | none => "value"

/-- State in the class of a widget. -/
def toSetState (b : Binding) : Fragment :=
  let setter := ((b.reuse? .setState b.setter).orElse fun _ => b.reuse? .useState b.setter).getD
    (setterName b.name)
  let type := widgetType? b
  let declared := match b.widgetInitial?, type with
    | some v, type => type.getD "var" ++ " " ++ b.name ++ " = " ++ v ++ ";"
    | none, some type => "late " ++ type ++ " " ++ b.name ++ ";"
    | none, none => "dynamic " ++ b.name ++ ";"
  let set := settingMethod ("void " ++ setter ++ "(" ++ typedParam type ++ ")")
    (b.name ++ " = value")
  let triggers := b.transitions.map fun t =>
    let signature := "void " ++ t.trigger ++ "()"
    if (assignedTo? b.name t.mutation).isSome then settingMethod signature t.mutation
    else methodText signature ["// " ++ unconvertedMark ++ " " ++ t.mutation]
  { members := declared :: set :: triggers, accessor := b.name, setter := some setter
    host := .stateful }

/-- State in a class of its own that emits its next value. -/
def toBloc (b : Binding) : Fragment :=
  let cubit := (b.reuse? .bloc b.reducer).getD (capitalize (bareName b.name) ++ "Cubit")
  let type := (widgetType? b).getD "dynamic"
  let read := "context.read<" ++ cubit ++ ">()."
  let setter := (nonEmpty? b.setter).map fun _ =>
    (b.reuse? .bloc b.setter).getD (setterName b.name)
  let setLines := match setter with
    | some s => ["", "  void " ++ s ++ "(" ++ type ++ " value) => emit(value);"]
    | none => []
  let setLocals := match setter with
    | some s => ["void " ++ s ++ "(" ++ type ++ " value) => " ++ read ++ s ++ "(value);"]
    | none => []
  let triggerLines := b.transitions.flatMap fun t =>
    match assignedTo? b.name t.mutation with
    | some v => ["", "  void " ++ t.trigger ++ "() => emit(" ++
        renameIdentifier v b.name "state" ++ ");"]
    | none => ["", "  void " ++ t.trigger ++ "() \x7b",
        "    // " ++ unconvertedMark ++ " " ++ t.mutation, "  \x7d"]
  let triggers := b.transitions.map fun t =>
    "void " ++ t.trigger ++ "() => " ++ read ++ t.trigger ++ "();"
  { imports := [("package:flutter_bloc/flutter_bloc.dart", [])], accessor := b.name, setter
    locals := ["final " ++ b.name ++ " = context.watch<" ++ cubit ++ ">().state;"] ++
      setLocals ++ triggers
    declarations := [join "\n" (["class " ++ cubit ++ " extends Cubit<" ++ type ++ "> \x7b",
      "  " ++ cubit ++ "() : super(" ++ orDefault b.widgetInitial? "null" ++ ");"] ++ setLines ++
      triggerLines ++ ["\x7d"])] }

private def commentLines (s : String) : String := replaceChar '\n' "\n// " s

/-- The provider of a state. A selector of a store has no provider form and becomes a comment. -/
def providerText (b : Binding) (provider : String) (type : Option String) : String :=
  match b.idiom == some Idiom.storeHook.name, b.initial with
  | true, some (.expr s) =>
    let selector := orDefault b.hook "useSelector" ++ "(" ++ s ++ ")"
    "// " ++ unconvertedMark ++ " " ++ commentLines selector ++ "\nfinal " ++ provider ++
      " = StateProvider" ++ angled (type.map (· ++ "?")) ++ "((ref) => null);"
  | _, _ =>
    "final " ++ provider ++ " = StateProvider" ++ angled type ++ "((ref) => " ++
      orDefault b.widgetInitial? "null" ++ ");"

/-- State in a provider. -/
def toRiverpod (b : Binding) : Fragment :=
  let provider := lowerFirst (bareName b.name) ++ "Provider"
  let type := widgetType? b
  let notifier := "ref.read(" ++ provider ++ ".notifier).state"
  let setter := (nonEmpty? b.setter).map fun _ =>
    (b.reuse? .riverpod b.setter).getD (setterName b.name)
  let setLocals := match setter with
    | some s => ["void " ++ s ++ "(" ++ typedParam type ++ ") => " ++ notifier ++ " = value;"]
    | none => []
  let triggers := b.transitions.map fun t =>
    match assignedTo? b.name t.mutation with
    | some v => "void " ++ t.trigger ++ "() => " ++ notifier ++ " = " ++ v ++ ";"
    | none => "void " ++ t.trigger ++ "() \x7b\n  // " ++ unconvertedMark ++ " " ++ t.mutation ++
        "\n\x7d"
  { imports := [("package:flutter_riverpod/flutter_riverpod.dart", [])], accessor := b.name
    setter, host := .consumer, declarations := [providerText b provider type]
    locals := ["final " ++ b.name ++ " = ref.watch(" ++ provider ++ ");"] ++ setLocals ++
      triggers }

/-- State looked up in the surroundings. -/
def toInheritedLookup (b : Binding) : Fragment :=
  match b.idiom == some "provider", nonEmpty? b.typeHint with
  | true, some type =>
    { imports := [("package:provider/provider.dart", [])], accessor := b.name
      locals := ["final " ++ b.name ++ " = context.watch<" ++ type ++ ">();"] }
  | _, _ =>
    { accessor := b.name
      locals := ["final " ++ b.name ++ " = " ++ contextType b.typeHint b.name ++
        ".of(context);"] }

/-! ## Choosing an idiom -/

/-- Writes a binding in an idiom. -/
def expand (b : Binding) : Idiom → Fragment
  | .useState => toUseState b
  | .useReducer => toUseReducer b
  | .storeHook => toStoreHook b
  | .contextHook => toContextHook b
  | .setState => toSetState b
  | .bloc => toBloc b
  | .riverpod => toRiverpod b
  | .inheritedLookup => toInheritedLookup b

/-- Writes a binding in the idiom of a name. -/
def expandNamed (b : Binding) (idiom : String) : Attempt Fragment :=
  match Idiom.ofName? idiom with
  | some i => .ok (expand b i)
  | none => .error (.generation ("unknown state idiom '" ++ idiom ++ "'") "root")

/-- The name of the idiom that the settings give for a kind of state in a framework. -/
def configuredIdiom (s : Config.Settings) (kind : Kind) (framework : String) : Attempt String :=
  match (Assoc.get? ((Assoc.get? s.idioms framework).getD []) kind.name) with
  | some name => .ok name
  | none => .error (.generation
      ("no state idiom configured for " ++ kind.name ++ " in " ++ framework) "root")

/-- Writes a binding in the configured idiom, which has to be one of the framework. -/
def expandFor (s : Config.Settings) (framework : String) (b : Binding) : Attempt Fragment := do
  let name ← configuredIdiom s b.kind framework
  match Idiom.ofName? name with
  | some i =>
    if i.framework.name == framework then return expand b i
    else throw (refused name)
  | none => throw (refused name)
where
  refused (name : String) : Failure :=
    .generation ("state idiom '" ++ name ++ "' cannot be expressed in " ++ framework) "root"

/-- Writes bindings, each on its own. -/
def expandAll (s : Config.Settings) (framework : String) (bs : List Binding) :
    Attempt (List Fragment) :=
  bs.mapM (expandFor s framework)

end WidgetBridge.State
