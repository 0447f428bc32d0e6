import WidgetBridge.State.Binding
import WidgetBridge.Text.Pattern

/-!
# Names and mutations

Mutations are kept in one form, `name = expression`. `normalizeMutation` brings increments and
compound assignments into it. Renaming touches whole names only and leaves members of objects.
-/

namespace WidgetBridge.State

open WidgetBridge.Text

/-! ## Names -/

/-- Leading underscores, and the rest of a name. -/
def splitLead (name : String) : String × String :=
  let cs := name.toList
  (String.ofList (cs.takeWhile (· == '_')), String.ofList (cs.dropWhile (· == '_')))

/-- A name with a capital after its leading underscores. -/
def capitalize (name : String) : String :=
  let (lead, core) := splitLead name
  lead ++ capitalizeFirst core

/-- The name of the function that sets a state. -/
def setterName (name : String) : String :=
  let (lead, core) := splitLead name
  lead ++ "set" ++ capitalizeFirst core

/-- A name without its leading underscores. -/
def bareName (name : String) : String := (splitLead name).2

namespace Form

open Pattern

private def nameOrDot (c : Char) : Bool := isWord c || c == '$' || c == '.'
private def nameChar (c : Char) : Bool := isWord c || c == '$'
private def step : Pattern := lit "++" <|> lit "--"
private def mark : Pattern := oneOf "'\""
private def key : Pattern := group 1 (many1 nameRest)

/-- A whole name that is no member of an object. -/
def freeName (name : String) : Pattern :=
  notBehind nameOrDot ++ lit name ++ ahead false (char nameChar)

/-- An increment or decrement, before or after the name. -/
def stepped : Pattern :=
  textStart ++ ((group 1 name ++ blanks ++ group 2 step) <|>
    (group 3 step ++ blanks ++ group 4 name)) ++ textEnd

/-- An assignment with an operator. -/
def compound : Pattern :=
  textStart ++ group 1 name ++ blanks ++
    group 2 (lit "+" <|> lit "-" <|> lit "*" <|> lit "/" <|> lit "%" <|> lit "~/" <|> lit "??") ++
    lit "=" ++ blanks ++ group 3 (many1 any) ++ textEnd

/-- A plain assignment. -/
def assignment : Pattern :=
  textStart ++ group 1 name ++ blanks ++ lit "=" ++ ahead false (oneOf "=>") ++ blanks ++
    group 2 (many1 any) ++ textEnd

/-- An operand that needs no brackets. -/
def simpleOperand : Pattern :=
  textStart ++ (many1 (char nameOrDot) <|> number) ++ textEnd

/-- A comment that holds source of the other framework. -/
def unconverted : Pattern :=
  lit "//" ++ blanks ++ lit "Unconverted:" ++ blanks ++ group 1 (few1 inLine) ++ blanks ++ lineEnd

/-- An action that sets a slice of a store. -/
def storeAction : Pattern :=
  textStart ++ lit "\x7b" ++ blanks ++ lit "type:" ++ blanks ++ mark ++ key ++ lit "/set" ++
    mark ++ blanks ++ lit "," ++ blanks ++ lit "payload:" ++ blanks ++ group 2 (few1 any) ++
    blanks ++ lit "\x7d" ++ textEnd

/-- A case that returns the next state. -/
def returningCase : Pattern :=
  lit "case" ++ blanks1 ++ mark ++ key ++ mark ++ blanks ++ lit ":" ++ blanks ++ lit "return" ++
    blanks1 ++ group 2 (few1 any) ++ lit ";"

/-- The default case that keeps the state. -/
def keepingDefault : Pattern :=
  lit "default" ++ blanks ++ lit ":" ++ blanks ++ lit "return" ++ blanks1 ++ lit "state" ++
    blanks ++ lit ";"

/-- An action without payload. -/
def plainAction : Pattern :=
  textStart ++ lit "\x7b" ++ blanks ++ lit "type:" ++ blanks ++ mark ++ key ++ mark ++ blanks ++
    lit "\x7d" ++ textEnd

end Form

/-- Renames a name wherever it stands free. -/
def renameIdentifier (source old new : String) : String :=
  if old == new then source else (Form.freeName old).replaceAll (fun _ => new) source

/-- Renames several names, one after another. -/
def renameAll (renames : List (String × String)) (source : String) : String :=
  renames.foldl (fun s (old, new) => renameIdentifier s old new) source

/-! ## Mutations -/

/-- The name and the mutation of a statement that assigns to a name. -/
def normalizeMutation (statement : String) : Option (String × String) :=
  let s := trim (trimEndChar ';' (trim statement))
  match Form.stepped.matchStart? s with
  | some m =>
    let name := (m.group? 1).getD (m.get 4)
    let op := take ((m.group? 2).getD (m.get 3)) 1
    some (name, name ++ " = " ++ name ++ " " ++ op ++ " 1")
  | none =>
    match Form.compound.matchStart? s with
    | some m =>
      let name := m.get 1
      let operand := trim (m.get 3)
      let operand := if Form.simpleOperand.matchesStart operand then operand
        else "(" ++ operand ++ ")"
      some (name, name ++ " = " ++ name ++ " " ++ m.get 2 ++ " " ++ operand)
    | none =>
      (Form.assignment.matchStart? s).map fun m =>
        (m.get 1, m.get 1 ++ " = " ++ trim (m.get 2))

/-- The name and the value of an assignment. -/
def splitAssignment (mutation : String) : Option (String × String) :=
  (Form.assignment.matchStart? (trim mutation)).map fun m => (m.get 1, trim (m.get 2))

/-- The value that a mutation assigns to a name, if it assigns to that name. -/
def assignedTo? (name mutation : String) : Option String :=
  match splitAssignment mutation with
  | some (n, v) => if n == name then some v else none
  | none => none

/-- The mark of comments that hold source of the other framework. -/
def unconvertedMark : String := "Unconverted:"

/-- What the first comment with source of the other framework holds. -/
def unconvertedText? (source : String) : Option String :=
  (Form.unconverted.search? source).map fun m => m.get 1

/-- The action that sets a slice of a store. -/
def storeAction (name value : String) : String :=
  "\x7b type: '" ++ name ++ "/set', payload: " ++ value ++ " \x7d"

/-- The mutation of an action on a slice of a store. -/
def ofStoreAction (name action : String) : String :=
  match Form.storeAction.matchStart? action with
  | some m => if m.get 1 == name then name ++ " = " ++ m.get 2 else action
  | none => action

/-! ## Reducers -/

/-- How often a text occurs, counted without overlaps. -/
def occurrences (pat source : String) : Nat := ((Pattern.lit pat).findAll source).length

/-- The transition of an action, by the case of its type. -/
def inlineTransition (name : String) (cases : Assoc String) (t : Transition) :
    Option (String × Transition) := do
  let m ← Form.plainAction.matchStart? (trim t.mutation)
  let value ← cases.get? (m.get 1)
  let next := renameIdentifier (trim value) "state" name
  return (m.get 1, { t with mutation := name ++ " = " ++ next })

/-- Replaces actions by what a reducer makes of them. It applies to a reducer that is one switch,
whose cases each return the next state and are just the actions that are sent. -/
def inlineReducer (b : Binding) (reducer : String) : Option Binding := do
  let cases := Assoc.ofPairs
    ((Form.returningCase.findAll reducer).map fun m => (m.get 1, m.get 2))
  if cases.isEmpty || (Form.keepingDefault.search? reducer).isNone then none
  if occurrences "return" reducer != cases.length + 1 then none
  let inlined ← b.transitions.mapM (inlineTransition b.name cases)
  if !cases.keys.all fun k => inlined.any fun i => i.1 == k then none
  return { b with transitions := inlined.map (·.2) }

end WidgetBridge.State
