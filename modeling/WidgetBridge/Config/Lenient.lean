import WidgetBridge.Schema.Field

/-!
# Lenient reading of configuration data

Configuration values are read by what they can stand for: an integral double or a numeral text is
a whole number, and the usual words are truth values. Texts, lists and maps are read only from
themselves. A field that is absent takes its default; unknown fields are ignored.
-/

namespace WidgetBridge.Config

open WidgetBridge.Text WidgetBridge.Number

/-- A reader of configuration data. -/
abbrev Reader (α : Type) := Value → Option α

namespace Reader

/-- A text. -/
def text : Reader String
  | .str s => some s
  | _ => none

private def cutZeros (s : String) : String :=
  match cutAt? s "." with
  | some (whole, places) => if places.toList.all (· == '0') then whole else s
  | none => s

/-- A whole number. -/
def whole : Reader Int
  | .int i => some i
  | .bool b => some (if b then 1 else 0)
  | .float x => if isWhole x then truncate? x else none
  | .str s => readInt? (cutZeros (trim s))
  | _ => none

/-- A truth value. -/
def truth : Reader Bool
  | .bool b => some b
  | .int 0 => some false
  | .int 1 => some true
  | .float x => if x == 0.0 then some false else if x == 1.0 then some true else none
  | .str s =>
    let w := lower s
    if ["1", "t", "y", "on", "yes", "true"].contains w then some true
    else if ["0", "f", "n", "no", "off", "false"].contains w then some false
    else none
  | _ => none

/-- Any data. -/
def data : Reader Value := some

/-- A list. -/
def list {α : Type} (item : Reader α) : Reader (List α)
  | .list vs => vs.mapM item
  | _ => none

/-- A map. -/
def assoc {α : Type} (item : Reader α) : Reader (Assoc α)
  | .map es => es.mapM fun e => do return (e.1, ← item e.2)
  | _ => none

/-- Nothing, or what a reader accepts. -/
def optional {α : Type} (r : Reader α) : Reader (Option α)
  | .null => some none
  | v => do return some (← r v)

end Reader

/-- A required field of a record. -/
def required {α : Type} (es : Assoc Value) (key : String) (r : Reader α) : Option α := do
  r (← es.get? key)

/-- A field of a record that has a default. -/
def defaulted {α : Type} (es : Assoc Value) (key : String) (r : Reader α) (fallback : α) :
    Option α :=
  match es.get? key with
  | some v => r v
  | none => some fallback

end WidgetBridge.Config
