import WidgetBridge.State.Mutation
import WidgetBridge.WidgetGrammar.Member

/-!
# State in widget source

Widget source keeps state in fields that `setState` changes, in cubits, in providers, and in
values that are looked up from the context. `scanWidget` lifts what it recognises into bindings
and leaves the members and statements that stay as they are.
-/

namespace WidgetBridge.State

open WidgetBridge.Text WidgetBridge.WidgetGrammar

namespace Form

open Pattern

private def localHead : Pattern :=
  textStart ++ (lit "final" <|> lit "var") ++ blanks1 ++
    opt (many1 (char fun c => isWord c || c == '<' || c == '>' || c == '?') ++ blanks1) ++
    group 1 words1 ++ blanks ++ lit "=" ++ blanks

private def localTail : Pattern := blanks ++ opt (lit ";") ++ textEnd

/-- A local that watches the state of a cubit. -/
def watchCubit : Pattern :=
  localHead ++ lit "context.watch<" ++ group 2 words1 ++ lit ">().state" ++ localTail

/-- A local that watches a provided value by its type. -/
def watchType : Pattern :=
  localHead ++ ((lit "context.watch<" ++ group 2 words1 ++ lit ">()") <|>
    (lit "Provider.of<" ++ group 3 words1 ++ lit ">(context)")) ++ localTail

/-- A local that is looked up from the context. -/
def inherited : Pattern :=
  localHead ++ group 2 (char (fun c => 'A' ≤ c && c ≤ 'Z') ++ many word) ++ lit ".of(context)" ++
    localTail

/-- A local that watches a provider. -/
def watchProvider : Pattern :=
  localHead ++ lit "ref.watch(" ++ group 2 words1 ++ lit ")" ++ localTail

/-- The start of a provider of plain state. -/
def stateProvider : Pattern :=
  textStart ++ lit "StateProvider" ++ opt (lit "<" ++ many1 any ++ lit ">") ++ lit "("

/-- A function local to `build`. -/
def localFunction : Pattern :=
  textStart ++ lit "void" ++ blanks1 ++ group 1 words1 ++ blanks ++ lit "(" ++
    group 2 (many (noneOf ")")) ++ lit ")" ++ blanks ++
    ((lit "=>" ++ blanks ++ group 3 (few1 any) ++ blanks ++ lit ";") <|>
      (lit "\x7b" ++ group 4 (many any) ++ lit "\x7d")) ++ blanks ++ textEnd

/-- The state that a provider notifies about. -/
def notifier (provider : String) : Pattern :=
  lit "ref.read(" ++ blanks ++ lit provider ++ lit ".notifier" ++ blanks ++ lit ").state"

/-- A call of a cubit. -/
def cubitCall : Pattern :=
  textStart ++ lit "context.read<" ++ group 1 words1 ++ lit ">()." ++ group 2 words1 ++ lit "(" ++
    group 3 (many word) ++ lit ")" ++ blanks ++ opt (lit ";") ++ textEnd

end Form

/-! ## Calls of `setState` -/

/-- The arguments of calls of a function, where calls inside its arguments do not count. -/
def argumentsOf (function : String) : List TokenTree → List Range
  | [] => []
  | .leaf t :: .group o inner c :: ts =>
    if t.isName function && o.isPunct "(" then ⟨inner, some c⟩ :: argumentsOf function ts
    else argumentsOf function (.group o inner c :: ts)
  | .leaf _ :: ts => argumentsOf function ts
  | .group _ inner _ :: ts => argumentsOf function inner ++ argumentsOf function ts

/-- The statements of a closure. -/
def closureStatements : Expr → Option (List String)
  | .closure _ _ body block =>
    match block, body with
    | some b, _ => some (b.statements.map Range.text)
    | none, some e => some [e.text]
    | none, none => none
  | _ => none

/-- The names that the closures of `setState` assign to. -/
def mutatedNames (body : Range) : Attempt (List String) := do
  let closures ← (argumentsOf "setState" body.trees).filterMapM fun r =>
    if r.isEmpty then pure none else r.expr.map closureStatements
  return closures.flatten.filterMap fun s => (normalizeMutation s).map (·.1)

/-- A call with its name and arguments. -/
abbrev Call := String × List (Option String × Expr)

/-- An expression as a call. -/
def callOf? : Expr → Option Call
  | .call _ callee _ args _ => some (callee, args)
  | _ => none

/-- The call of which a block consists. -/
def singleCall (body : Range) : Attempt (Option Call) :=
  match body.statements with
  | [s] =>
    let r := s.withoutSemicolon
    if r.isEmpty then .ok none else r.expr.map callOf?
  | _ => .ok none

/-- The call of which a member consists. -/
def memberCall (m : Member) : Attempt (Option Call) :=
  match m.arrow, m.body with
  | some r, _ => r.expr.map callOf?
  | none, some body => singleCall body
  | none, none => .ok none

/-- The statements of the `setState` of which a member consists. -/
def setStateBody (m : Member) : Attempt (Option (List String)) := do
  match ← memberCall m with
  | some ("setState", [(_, fn)]) => return closureStatements fn
  | _ => return none

/-- The names of the parameters of a member. -/
def paramsOfMember (m : Member) : List String := (m.params.map paramNames).getD []

/-- Source of the other framework that stands in the empty body of a member. -/
def carriedAction? (m : Member) : Option String :=
  match unconvertedText? m.text, m.body with
  | some action, some body => if body.isEmpty then some action else none
  | _, _ => none

/-! ## Fields and methods -/

/-- The binding of a field that `setState` changes. -/
def bindingOfField (m : Member) : Attempt Binding := do
  let initial ← match m.initializer with
    | some r => r.expr.map fun e => some e.toProp
    | none => pure none
  let hint := trim ((Pattern.lit "late").replaceAll (fun _ => "") m.typeText)
  return { kind := .local, name := m.name, initial
           typeHint := if hint.isEmpty then none else some hint, idiom := some "setState" }

/-- Whether a member is a field that can hold state. -/
def holdsState (mutated : List String) (m : Member) : Bool :=
  m.kind == .field && mutated.contains m.name && !m.modifiers.contains "static" &&
    !m.modifiers.contains "const"

/-- Takes the fields that hold state out of members. -/
def liftFields (mutated : List String) (bindings : Assoc Binding) :
    List Member → Attempt (Assoc Binding × List Member)
  | [] => .ok (bindings, [])
  | m :: ms => do
    if holdsState mutated m then
      liftFields mutated (bindings.put m.name (← bindingOfField m)) ms
    else
      let (bs, rest) ← liftFields mutated bindings ms
      return (bs, m :: rest)

/-- What a method does to a binding: it sets it, it is a transition, or neither. -/
def liftMethod (bindings : Assoc Binding) (m : Member) : Attempt (Option (Assoc Binding)) := do
  let params := paramsOfMember m
  let statements ← setStateBody m
  let lifted := match (statements.getD []).map normalizeMutation with
    | [some (name, mutation)] =>
      (bindings.get? name).bind fun b =>
        match params with
        | [] => some (bindings.put name (b.addTransition m.name mutation))
        | [p] =>
          if mutation == name ++ " = " ++ p then
            some (bindings.put name { b with setter := some m.name })
          else none
        | _ => none
    | _ => none
  match lifted with
  | some bs => return some bs
  | none =>
    if !params.isEmpty || statements.isSome then return none
    match carriedAction? m, bindings with
    | some action, (_, target) :: _ =>
      return some (bindings.put target.name (target.addTransition m.name action))
    | _, _ => return none

/-- Takes the methods that only change state out of members. -/
def liftMethods (bindings : Assoc Binding) : List Member → Attempt (Assoc Binding × List Member)
  | [] => .ok (bindings, [])
  | m :: ms => do
    let lifted ←
      if m.kind != .method || bindings.has m.name then pure none else liftMethod bindings m
    match lifted with
    | some bs => liftMethods bs ms
    | none =>
      let (bs, rest) ← liftMethods bindings ms
      return (bs, m :: rest)

/-! ## Providers and cubits -/

/-- The type and the first state of a provider of plain state. -/
def providerParts (m : Member) : Attempt (Option (Option String × PropValue)) :=
  match m.initializer with
  | none => .ok none
  | some r => do
    match ← r.expr with
    | .call range callee typeArgs args comments =>
      let e := Expr.call range callee typeArgs args comments
      if !Form.stateProvider.matchesStart e.text then return none
      match Expr.positional args with
      | [.closure _ _ (some body) _] =>
        return some (if typeArgs.isEmpty then none else some typeArgs, body.toProp)
      | _ => return none
    | _ => return none

/-- What the members of a cubit tell about its state. -/
structure CubitParts where
  initial : Option PropValue := none
  setter : Option String := none
  transitions : List Transition := []

/-- What one more member of a cubit tells; `none` if the member is of another sort. -/
def CubitParts.add (p : CubitParts) (name : String) (m : Member) :
    Attempt (Option CubitParts) := do
  if m.kind == .constructor then
    match argumentsOf "super" m.range.trees with
    | [] => return none
    | r :: _ =>
      if r.isEmpty then return some p
      return some { p with initial := some (← r.expr).toProp }
  if m.kind != .method then return none
  let params := paramsOfMember m
  let carried := match params, carriedAction? m with
    | [], some action => some { p with transitions := p.transitions ++ [⟨m.name, action⟩] }
    | _, _ => none
  match ← memberCall m with
  | some ("emit", [(_, e)]) =>
    match params with
    | [] =>
      let mutation := name ++ " = " ++ renameIdentifier e.text "state" name
      return some { p with transitions := p.transitions ++ [⟨m.name, mutation⟩] }
    | [param] =>
      if e.text == param then return some { p with setter := some m.name }
      return carried
    | _ => return carried
  | _ => return carried

/-- What the members of a cubit tell together. -/
def CubitParts.addAll (name : String) : CubitParts → List Member → Attempt (Option CubitParts)
  | p, [] => .ok (some p)
  | p, m :: ms => do
    match ← p.add name m with
    | some p' => addAll name p' ms
    | none => return none

/-- The binding of a cubit whose members all follow from the binding. -/
def bindingOfCubit (s : Source) (c : Member) (name : String) : Attempt (Option Binding) :=
  match c.body with
  | some body => do
    if c.superName != "Cubit" then return none
    match ← CubitParts.addAll name {} (← s.membersIn body) with
    | none => return none
    | some p =>
      let hint ← c.superTypeArgs
      return some
        { kind := .reducer, name, initial := p.initial, transitions := p.transitions
          setter := p.setter, typeHint := if hint.isEmpty then none else some hint
          idiom := some "bloc", reducer := some c.name }
  | none => .ok none

/-! ## Statements of `build` -/

/-- What was lifted out of a widget. -/
structure WidgetScan where
  bindings : List Binding := []
  /-- The members that stay. -/
  members : List Member := []
  /-- The statements that stay. -/
  statements : List Range := []
  /-- The names of the declarations that went into bindings. -/
  consumed : List String := []
  /-- The locals that hold the state of cubits and of providers, by declaration. -/
  cubits : List String := []
  providers : Assoc String := []

/-- One more statement that declares a local; `none` if it binds no state. -/
def WidgetScan.watch (w : WidgetScan) (s : Source) (top : Assoc Member) (statement : String) :
    Attempt (Option WidgetScan) := do
  let cubit ← match Form.watchCubit.matchStart? statement with
    | some m =>
      match top.get? (m.get 2) with
      | some c => (bindingOfCubit s c (m.get 1)).map fun b => b.map fun b =>
          { w with bindings := w.bindings ++ [b], consumed := w.consumed ++ [m.get 2]
                   cubits := w.cubits ++ [m.get 2] }
      | none => pure none
    | none => pure none
  if let some w' := cubit then return some w'
  let provider ← match Form.watchProvider.matchStart? statement with
    | some m =>
      match top.get? (m.get 2) with
      | some p => (providerParts p).map fun parts => parts.map fun (hint, initial) =>
          let b : Binding := { kind := .externalStore, name := m.get 1, initial := some initial
                               typeHint := hint, idiom := some "riverpod" }
          { w with bindings := w.bindings ++ [b], consumed := w.consumed ++ [m.get 2]
                   providers := w.providers.put (m.get 2) (m.get 1) }
      | none => pure none
    | none => pure none
  if let some w' := provider then return some w'
  let derived := fun name hint idiom =>
    let b : Binding := { kind := .contextDerived, name, typeHint := some hint, idiom := some idiom }
    some { w with bindings := w.bindings ++ [b] }
  match Form.inherited.matchStart? statement with
  | some m => return derived (m.get 1) (m.get 2) "inheritedLookup"
  | none =>
    match Form.watchType.matchStart? statement with
    | some m => return derived (m.get 1) ((m.group? 2).getD (m.get 3)) "provider"
    | none => return none

/-- Lifts the locals that bind state; the rest of the statements is the second part. -/
def WidgetScan.watchAll (s : Source) (top : Assoc Member) :
    WidgetScan → List Range → Attempt (WidgetScan × List Range)
  | w, [] => .ok (w, [])
  | w, r :: rs => do
    match ← w.watch s top r.text with
    | some w' => watchAll s top w' rs
    | none =>
      let (w', rest) ← watchAll s top w rs
      return (w', r :: rest)

/-- The last word of a text. -/
def lastWord (s : String) : String :=
  String.ofList ((trimEnd s).toList.reverse.takeWhile fun c => !isBlank c).reverse

/-- Changes the first binding of a name. -/
def updateFirst (name : String) (f : Binding → Binding) : List Binding → List Binding
  | [] => []
  | b :: bs => if b.name == name then f b :: bs else b :: updateFirst name f bs

/-- What a local function does to the provider that it notifies; `none` if it is to stay. -/
def WidgetScan.notify (w : WidgetScan) (trigger : String) (params : List String)
    (body : String) : Assoc String → Option WidgetScan
  | [] => none
  | (provider, name) :: rest =>
    let form := Form.notifier provider
    if (form.search? body).isNone then notify w trigger params body rest
    else
      let statement := trim (trimEndChar ';' (form.replaceAll (fun _ => name) body))
      match normalizeMutation statement with
      | none => none
      | some (assigned, mutation) =>
        if assigned != name then none
        else
          match params with
          | [] => some { w with
              bindings := updateFirst name (·.addTransition trigger mutation) w.bindings }
          | [p] =>
            if mutation == name ++ " = " ++ p then
              some { w with
                bindings := updateFirst name ({ · with setter := some trigger }) w.bindings }
            else none
          | _ => none

/-- Folds a function local to `build` into its binding; `none` if it is to stay. -/
def WidgetScan.fold (w : WidgetScan) (statement : String) : Option WidgetScan :=
  match Form.localFunction.matchStart? (trim statement) with
  | none => none
  | some m =>
    let params := ((splitAt (m.get 2) ',').filter fun p => !(trim p).isEmpty).map lastWord
    let body := trim ((m.group? 3).getD (m.get 4))
    let ofCubit := match Form.cubitCall.matchStart? body with
      | some c => w.cubits.contains (c.get 1)
      | none => false
    if ofCubit then some w else w.notify (m.get 1) params body w.providers

/-- Folds the local functions among statements. -/
def WidgetScan.foldAll : WidgetScan → List Range → WidgetScan
  | w, [] => w
  | w, r :: rs =>
    match w.fold r.text with
    | some w' => w'.foldAll rs
    | none => { w with statements := w.statements ++ [r] }.foldAll rs

/-- Lifts the state of a widget. `stateClass` is the class whose calls of `setState` count,
`members` are its members without `build`, `statements` those before the returned tree, and
`declarations` what stands beside the class. -/
def scanWidget (s : Source) (stateClass : Option Member) (members : List Member)
    (statements : List Range) (declarations : List Member) : Attempt WidgetScan := do
  let mutated ← match stateClass.bind fun c => c.body with
    | some body => mutatedNames body
    | none => pure []
  let (bindings, rest) ← liftFields mutated [] members
  let (bindings, rest) ← liftMethods bindings rest
  let top := Assoc.ofPairs (declarations.map fun m => (m.name, m))
  let start : WidgetScan := { bindings := bindings.map (·.2), members := rest }
  let (w, kept) ← start.watchAll s top statements
  return w.foldAll kept

end WidgetBridge.State
