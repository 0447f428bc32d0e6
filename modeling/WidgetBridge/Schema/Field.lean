import WidgetBridge.Payload
import WidgetBridge.PropValue

/-!
# Fields of schemas

Schemas are plain data with fixed keys. These are the ways to read a field: required or optional,
and of the kind that is expected. A value of another kind is a failure of its own.
-/

namespace WidgetBridge.Schema

/-- A required field. -/
def field (v : Value) (key : String) : Attempt Value :=
  match v with
  | .map es =>
    match Assoc.get? es key with
    | some w => .ok w
    | none => .error .missingField
  | _ => .error .wrongKind

/-- An optional field. -/
def field? (v : Value) (key : String) : Attempt (Option Value) :=
  match v with
  | .map es => .ok (Assoc.get? es key)
  | _ => .error .unsupported

/-- An optional field, or a value in its place. -/
def fieldOr (v : Value) (key : String) (fallback : Value) : Attempt Value := do
  return (← field? v key).getD fallback

/-- The text of a text value. -/
def asText : Value → Attempt String
  | .str s => .ok s
  | _ => .error .wrongKind

/-- The text of a text value; nothing for nothing. -/
def asOptionalText : Value → Attempt (Option String)
  | .null => .ok none
  | .str s => .ok (some s)
  | _ => .error .wrongKind

/-- The items of a list. -/
def asList : Value → Attempt (List Value)
  | .list vs => .ok vs
  | .map es => .ok (es.map fun e => .str e.1)
  | .str s => .ok (s.toList.map fun c => .str (String.singleton c))
  | _ => .error .wrongKind

/-- The entries of a map. -/
def asMap : Value → Attempt (Assoc Value)
  | .map es => .ok es
  | _ => .error .unsupported

/-- A whole number. -/
def asInt : Value → Attempt Int
  | .int i => .ok i
  | .bool b => .ok (if b then 1 else 0)
  | _ => .error .wrongKind

/-- A double. -/
def asFloat (v : Value) : Attempt Float :=
  match v.toFloat? with
  | some x => .ok x
  | none => .error .wrongKind

/-- The texts of a list. -/
def asTexts (v : Value) : Attempt (List String) := do
  (← asList v).mapM asText

/-- The fields of a record whose keys are all among those allowed, the required ones present. -/
def record (required allowed : List String) (v : Value) : Attempt (Assoc Value) :=
  match v with
  | .map es =>
    if required.all (Assoc.has es) && es.all (fun e => allowed.contains e.1) then .ok es
    else .error .wrongKind
  | _ => .error .wrongKind

/-- An optional text as plain data. -/
def ofOptionalText : Option String → Value
  | some s => .str s
  | none => .null

end Schema

namespace PropValue

variable {σ : Type} [Payload σ]

/-- A prop value as plain data. -/
def toSchema : PropValue σ → Value
  | .lit kind v => .map [("kind", .str kind.name), ("value", v)]
  | .expr s => .map [("kind", .str "expression"), ("source", Payload.toValue s)]

/-- Reads a prop value from plain data. -/
def ofSchema (v : Value) : Attempt (PropValue σ) := do
  match ← Schema.field v "kind" with
  | .str "expression" => return .expr (← Payload.ofValue (← Schema.field v "source"))
  | .str kind =>
    match LiteralKind.ofName? kind with
    | some k => return .lit k (← Schema.fieldOr v "value" .null)
    | none => .error .badText
  | _ => .error .badText

end PropValue

end WidgetBridge
