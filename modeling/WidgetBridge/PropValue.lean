import WidgetBridge.Failure

/-!
# Prop values

The value of a prop is a literal, which is data tagged with its kind, or an expression, which is
kept as the text in which it was written. `PropValue.literal` tags data with the kind it has, and
`PropValue.matchesKind` says when a tag is right. The type of what stands for the text of an
expression is a parameter, since a value that was not read from source may hold other data there.
-/

namespace WidgetBridge

open WidgetBridge.Text

/-- The kinds of literals. -/
inductive LiteralKind where
  | string
  | number
  | boolean
  | null
  | array
  | object
  deriving Repr, DecidableEq

/-- The name of a kind. -/
def LiteralKind.name : LiteralKind → String
  | .string => "string"
  | .number => "number"
  | .boolean => "boolean"
  | .null => "null"
  | .array => "array"
  | .object => "object"

/-- The kind of a name. -/
def LiteralKind.ofName? : String → Option LiteralKind
  | "string" => some .string
  | "number" => some .number
  | "boolean" => some .boolean
  | "null" => some .null
  | "array" => some .array
  | "object" => some .object
  | _ => none

/-- The value of a prop. -/
inductive PropValue (σ : Type := String) where
  /-- Data written as literal source, with the kind it is tagged with. -/
  | lit (kind : LiteralKind) (value : Value)
  /-- Anything else, as source text. -/
  | expr (source : σ)
  deriving Inhabited

/-- The props of an element, in order. -/
abbrev Props (σ : Type := String) := Assoc (PropValue σ)

namespace Value

/-- The kind of a value. -/
def kind : Value → LiteralKind
  | .null => .null
  | .bool _ => .boolean
  | .int _ | .float _ => .number
  | .str _ => .string
  | .list _ => .array
  | .map _ => .object

end Value

namespace PropValue

/-- Data as a literal of its own kind. -/
def literal (v : Value) : PropValue := .lit v.kind v

/-- Whether the tag of a literal is the kind of its value. -/
def matchesKind {σ : Type} : PropValue σ → Bool
  | .lit kind v => v.kind == kind
  | .expr _ => true

/-- The source text of an expression. -/
def source? : PropValue → Option String
  | .expr s => some s
  | .lit _ _ => none

/-- The text of a text literal. -/
def text? : PropValue → Option String
  | .lit _ (.str s) => some s
  | _ => none

end PropValue

end WidgetBridge
