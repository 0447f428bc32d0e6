import WidgetBridge.State.Mutation

/-!
# Types of states

The type of a state on either side: from the type in which it was declared, or from its first
value.
-/

namespace WidgetBridge.State

open WidgetBridge.Text

/-- The widget type of a literal. -/
def literalType : PropValue → Option String
  | .lit .boolean _ => some "bool"
  | .lit .number (.float _) => some "double"
  | .lit .number _ => some "int"
  | .lit .string _ => some "String"
  | .lit .array _ => some "List"
  | .lit .object _ => some "Map<String, dynamic>"
  | _ => none

/-- The widget type of a component type that is no list. -/
def plainWidgetType (hint : String) : String :=
  match hint with
  | "string" => "String"
  | "boolean" => "bool"
  | "any" => "dynamic"
  | "unknown" => "Object?"
  | h => h

/-- The widget type of a declared type. -/
def hintedWidgetType (double : Bool) : (fuel : Nat) → String → String
  | 0, hint => hint
  | fuel + 1, hint =>
    if hint == "number" then if double then "double" else "int"
    else if hasTail hint "[]" then
      let inner := take hint (hint.length - 2)
      "List<" ++ (if inner.isEmpty then "dynamic" else hintedWidgetType false fuel inner) ++ ">"
    else plainWidgetType hint

/-- The widget type of a state. -/
def widgetType? (b : Binding) : Option String :=
  let hint := b.typeHint.getD ""
  if hint.isEmpty then b.initial.bind literalType
  else
    let double := match b.initial with
      | some (.lit _ (.float _)) => true
      | _ => false
    some (hintedWidgetType double hint.length hint)

/-- The component type of a widget type that is no list. -/
def plainComponentType (hint : String) : String :=
  match hint with
  | "int" => "number"
  | "double" => "number"
  | "num" => "number"
  | "String" => "string"
  | "bool" => "boolean"
  | "dynamic" => "any"
  | h => h

/-- The component type of a declared type. -/
def hintedComponentType : (fuel : Nat) → String → String
  | 0, hint => hint
  | fuel + 1, hint =>
    if hasHead hint "List<" && hasTail hint ">" then
      let inner := slice hint 5 (hint.length - 1)
      (if inner.isEmpty then "any" else hintedComponentType fuel inner) ++ "[]"
    else plainComponentType hint

/-- The component type of a state. -/
def componentType? (b : Binding) : Option String :=
  let hint := b.typeHint.getD ""
  if hint.isEmpty then none else some (hintedComponentType hint.length hint)

/-- The name of a context without the word at its end. -/
def contextType (hint : Option String) (name : String) : String :=
  let base := match hint with
    | some h => if h.isEmpty then capitalize name else h
    | none => capitalize name
  if hasTail base "Context" && base.length > 7 then take base (base.length - 7) else base

end WidgetBridge.State
