import WidgetBridge.ComponentGrammar.Constant
import WidgetBridge.State.Typing

/-!
# State in component source

A function component keeps state in hooks, a class component in the object `state`. `scanFunction`
and `scanClass` lift what they recognise into bindings: the declarations of state, and handlers
that do nothing but set it. Statements and members that stay are kept as nodes.
-/

namespace WidgetBridge.State

open WidgetBridge.Text WidgetBridge.ComponentGrammar

/-- Bindings, and what is left of the nodes around them. -/
structure ComponentScan where
  bindings : List Binding
  rest : List SyntaxTree

/-- The arguments of a call, comments apart. -/
def callOfTree? : SyntaxTree → Option (SyntaxTree × Option String × List SyntaxTree)
  | .node (.call typeArgs) _ (callee :: args) =>
    some (callee, typeArgs, SyntaxTree.withoutComments args)
  | _ => none

/-! ## Hooks -/

/-- A call of a hook. -/
structure Hook where
  name : String
  typeHint : Option String
  args : List SyntaxTree

/-- What type arguments name, without their brackets. -/
def typeHintOf (written : String) : Option String :=
  let inner := trim (unquoted (trim written))
  if inner.isEmpty then none else some inner

/-- The hook that an expression calls. -/
def hook? (e : SyntaxTree) : Option Hook :=
  match callOfTree? e.bare with
  | some (callee, typeArgs, args) =>
    let name := dropHead callee.text "React."
    if occursIn "." name then none else some ⟨name, typeArgs.bind typeHintOf, args⟩
  | none => none

/-- The hooks that select from a store. -/
def storeHooks : List String := ["useSelector", "useStore", "useAppSelector"]

/-- The hooks that give a function to send actions with. -/
def dispatchHooks : List String := ["useDispatch", "useAppDispatch"]

/-- The names in a pattern for a state and its setter. -/
def pairOf? : List String → Option (String × Option String)
  | [name] => some (name, none)
  | [name, setter] => some (name, some setter)
  | _ => none

/-- The binding of a state and its setter. -/
def bindingOfPair (h : Hook) (names : List String) : Attempt (Option Binding) :=
  match pairOf? names, h.name, h.args with
  | some (name, setter), "useState", args => do
    let initial ← args.head?.mapM SyntaxTree.toProp
    return some { kind := .local, name, initial, setter, typeHint := h.typeHint
                  idiom := some "useState" }
  | some (name, setter), "useReducer", reducer :: args => do
    let initial ← args.head?.mapM SyntaxTree.toProp
    return some { kind := .reducer, name, initial, setter, typeHint := h.typeHint
                  idiom := some "useReducer", reducer := some reducer.text }
  | _, _, _ => .ok none

/-- The binding of a single name. -/
def bindingOfName (h : Hook) (name : String) : Option Binding :=
  let initial := h.args.head?.map fun a => PropValue.expr a.text
  if storeHooks.contains h.name then
    some { kind := .externalStore, name, initial, typeHint := h.typeHint
           idiom := some "storeHook", hook := some h.name }
  else
    match h.name, h.args with
    | "useContext", context :: _ =>
      some { kind := .contextDerived, name, initial
             typeHint := some (contextType (some context.text) name)
             idiom := some "contextHook", hook := some h.name }
    | _, _ => none

/-- The target and the hook of a declaration. -/
def declaredHook? (statement : SyntaxTree) : Option (SyntaxTree × Hook) :=
  match statement.declarator? with
  | some (target, some value) => (hook? value).map fun h => (target, h)
  | _ => none

/-- The binding that a statement declares. -/
def bindingOf? (statement : SyntaxTree) : Attempt (Option Binding) :=
  match declaredHook? statement with
  | some (.node (.names ns) _ _, h) => bindingOfPair h ns
  | some (.node .name span _, h) => .ok (bindingOfName h span.text)
  | _ => .ok none

/-- The name that a statement gives to the function that sends actions. -/
def dispatcher? (statement : SyntaxTree) : Option String :=
  match declaredHook? statement with
  | some (.node .name span _, h) => if dispatchHooks.contains h.name then some span.text else none
  | _ => none

/-! ## Handlers -/

/-- The expression of which a body consists. -/
def soleExpression? (body : SyntaxTree) : Option SyntaxTree :=
  match body with
  | .node .block _ parts =>
    match SyntaxTree.withoutComments parts with
    | [.node .expression _ (e :: _)] => some e
    | _ => none
  | e => some e

/-- The call of which a function without parameters consists. -/
def soleCall? (params : Params) (body : SyntaxTree) : Option (SyntaxTree × List SyntaxTree) :=
  if !params.names.isEmpty then none
  else
    match (soleExpression? body).bind fun e => callOfTree? e.bare with
    | some (callee, _, args) => some (callee, args)
    | none => none

/-- The call of which a function that is a value consists. -/
def callOfFunction? (value : SyntaxTree) : Option (SyntaxTree × List SyntaxTree) :=
  match value.bare.function? with
  | some (form, params, body) => if form == .generator then none else soleCall? params body
  | none => none

/-- The name and the only call of a handler. -/
def handler? (statement : SyntaxTree) : Option (String × SyntaxTree × List SyntaxTree) :=
  match statement with
  | .node (.function .declared (some name) _) _ _ =>
    (callOfFunction? statement).map fun c => (name, c)
  | _ =>
    match statement.declarator? with
    | some (.node .name span _, some value) =>
      (callOfFunction? value).map fun c => (span.text, c)
    | _ => none

/-- The mutation that an argument of a setter states: a new value, or a function of the old one. -/
def mutationOf (name : String) (arg : SyntaxTree) : String :=
  let plain := name ++ " = " ++ arg.text
  match arg.bare.function? with
  | some (.arrow, { names := [param], .. }, body) =>
    match body with
    | .node .block _ _ => plain
    | _ => name ++ " = " ++ renameIdentifier body.bare.text param name
  | _ => plain

/-- The transition of a binding whose setter is called with an argument. -/
def Binding.mutation (b : Binding) (arg : SyntaxTree) : String :=
  match b.kind with
  | .local => mutationOf b.name arg
  | .externalStore => ofStoreAction b.name arg.text
  | _ => arg.text

/-- Adds a transition to the first binding with the setter that is called; `none` if there is no
such binding. -/
def addHandler (trigger callee : String) (arg : SyntaxTree) : List Binding → Option (List Binding)
  | [] => none
  | b :: bs =>
    if b.setter == some callee then some (b.addTransition trigger (b.mutation arg) :: bs)
    else (addHandler trigger callee arg bs).map (b :: ·)

/-- Folds a statement into the bindings, or leaves it. -/
def foldHandler (s : ComponentScan) (statement : SyntaxTree) : ComponentScan :=
  let folded := match handler? statement with
    | some (trigger, callee, [arg]) => addHandler trigger callee.text arg s.bindings
    | _ => none
  match folded with
  | some bindings => { s with bindings }
  | none => { s with rest := s.rest ++ [statement] }

/-- Gives the stores the function that sends actions as their setter. -/
def withDispatcher (name : String) (b : Binding) : Binding :=
  match b.kind, b.setter with
  | .externalStore, none => { b with setter := some name }
  | _, _ => b

/-- Lifts the state of a function component out of its statements. -/
def scanFunction (statements : List SyntaxTree) : Attempt ComponentScan := do
  let found ← statements.mapM fun s => do return (s, ← bindingOf? s)
  let bindings := found.filterMap (·.2)
  let others := (found.filter fun f => f.2.isNone).map (·.1)
  let hasStore := bindings.any fun b => b.kind == .externalStore
  match others.findSome? dispatcher?, hasStore with
  | some name, true =>
    let others := others.eraseP fun s => (dispatcher? s).isSome
    return others.foldl foldHandler ⟨bindings.map (withDispatcher name), []⟩
  | _, _ => return others.foldl foldHandler ⟨bindings, []⟩

/-! ## Classes -/

/-- The bindings of the entries of a state object. -/
def bindingsOfObject : List SyntaxTree → Attempt (List Binding)
  | [] => .ok []
  | .node .pair _ [key, value] :: ts => do
    match ← key.key? with
    | some name =>
      let b : Binding := { kind := .local, name, initial := some (← value.toProp)
                           setter := some "setState", idiom := some "classState" }
      return b :: (← bindingsOfObject ts)
    | none => bindingsOfObject ts
  | _ :: ts => bindingsOfObject ts

/-- The entries of an object. -/
def objectParts? (t : SyntaxTree) : Option (List SyntaxTree) :=
  match t.bare with
  | .node .object _ parts => some parts
  | _ => none

/-- The state object that a statement assigns. -/
def assignedState? : SyntaxTree → Option (List SyntaxTree)
  | .node .expression _ (.node .assign _ [target, value] :: _) =>
    if SyntaxTree.withoutSpaces target.text == "this.state" then objectParts? value else none
  | _ => none

/-- The state objects of a constructor that does nothing but call the base class and assign
them. -/
def constructedState? (body : SyntaxTree) : Option (List (List SyntaxTree)) :=
  let statements := SyntaxTree.withoutComments body.parts
  let objects := statements.filterMap assignedState?
  let allKnown := statements.all fun s =>
    (assignedState? s).isSome || hasHead s.text "super("
  if objects.isEmpty || !allKnown then none else some objects

/-- The state objects that a member of a class states. -/
def stateObjects? : SyntaxTree → Option (List (List SyntaxTree))
  | .node (.field "state") _ parts => (parts.head?.bind objectParts?).map fun o => [o]
  | .node (.method "constructor" _ true) _ parts => parts.getLast?.bind constructedState?
  | _ => none

/-- A read of the state of a class. -/
def stateAccess : Pattern := Pattern.wordBoundary ++ Pattern.lit "this.state."

/-- The key and the value that a member sets, if it does nothing else. -/
def stateUpdate? (member : SyntaxTree) : Attempt (Option (String × String)) :=
  let call := match member with
    | .node (.field _) _ (value :: _) => callOfFunction? value
    | m => m.method?.bind fun (params, body) => soleCall? params body
  match call with
  | some (callee, [arg]) =>
    if SyntaxTree.withoutSpaces callee.text != "this.setState" then .ok none
    else
      match (objectParts? arg).map SyntaxTree.withoutComments with
      | some [.node .pair _ [key, value]] => do
        return (← key.key?).map fun k => (k, stateAccess.replaceAll (fun _ => "") value.text)
      | _ => .ok none
  | _ => .ok none

/-- What the members of a class gave so far: bindings, members that stay, and updates of state by
the names of their members. -/
structure ClassParts where
  bindings : List Binding := []
  rest : List SyntaxTree := []
  updates : List (String × String × String) := []

/-- Adds a member of a class. -/
def ClassParts.add (p : ClassParts) (member : SyntaxTree) : Attempt ClassParts := do
  match stateObjects? member with
  | some objects =>
    let bindings ← objects.mapM bindingsOfObject
    return { p with bindings := p.bindings ++ bindings.flatten }
  | none =>
    let p := { p with rest := p.rest ++ [member] }
    match ← stateUpdate? member with
    | some update => return { p with updates := p.updates ++ [(member.memberName, update)] }
    | none => return p

/-- Adds an update to the bindings of its key. -/
def addUpdate (bindings : List Binding) (update : String × String × String) : List Binding :=
  let (trigger, key, value) := update
  bindings.map fun b =>
    if b.name == key then b.addTransition trigger (key ++ " = " ++ value) else b

/-- Lifts the state of a class component out of its members. -/
def scanClass (members : List SyntaxTree) : Attempt ComponentScan := do
  let p ← members.foldlM ClassParts.add {}
  let updates := p.updates.filter fun u => p.bindings.any fun b => b.name == u.2.1
  let consumed := updates.map (·.1)
  return { bindings := updates.foldl addUpdate p.bindings
           rest := p.rest.filter fun m => !consumed.contains m.memberName }

end WidgetBridge.State
