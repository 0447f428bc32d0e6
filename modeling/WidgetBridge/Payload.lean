import WidgetBridge.Failure

/-!
# Payloads

Texts, slots and expressions hold a payload. Readers of source make payloads that are texts, and
writers take no others; a tree that was built by hand or came in as plain data may hold anything in
their place. `Payload` is what the schemas of trees and the checks on them need of a type of
payloads.
-/

namespace WidgetBridge

/-- The payloads of a type are plain data, and come back from it. -/
class Payload (σ : Type) where
  /-- A payload as plain data. -/
  toValue : σ → Value
  /-- Reads a payload from plain data. -/
  ofValue : Value → Attempt σ
  ofValue_toValue (x : σ) : ofValue (toValue x) = .ok x

namespace Payload

/-- Payloads that are texts by their type. -/
instance : Payload String where
  toValue := .str
  ofValue
    | .str s => .ok s
    | _ => .error .wrongKind
  ofValue_toValue _ := rfl

/-- Payloads that may be any plain data. -/
instance : Payload Value where
  toValue v := v
  ofValue := .ok
  ofValue_toValue _ := rfl

/-- Whether a payload is a text. -/
def isText {σ : Type} [Payload σ] (x : σ) : Bool := (toValue x).str?.isSome

end Payload

end WidgetBridge
