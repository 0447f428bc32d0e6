import WidgetBridge.Schema.Field
import WidgetBridge.State.Binding

/-!
# Schemas of state bindings

A binding as plain data, and back.
-/

namespace WidgetBridge.State

open WidgetBridge.Schema

/-- A transition as plain data. -/
def Transition.toSchema (t : Transition) : Value :=
  .map [("trigger", .str t.trigger), ("mutation_expression", .str t.mutation)]

/-- Reads a transition from plain data. -/
def Transition.ofSchema (v : Value) : Attempt Transition := do
  let keys := ["trigger", "mutation_expression"]
  let es ← record keys keys v
  return ⟨← asText ((es.get? "trigger").getD .null),
    ← asText ((es.get? "mutation_expression").getD .null)⟩

/-- A binding as plain data. -/
def Binding.toSchema (b : Binding) : Value :=
  .map [("pattern", .str b.kind.name), ("name", .str b.name),
    ("initial_value", (b.initial.map PropValue.toSchema).getD .null),
    ("transitions", .list (b.transitions.map Transition.toSchema)),
    ("setter", ofOptionalText b.setter), ("type_hint", ofOptionalText b.typeHint),
    ("source_idiom", ofOptionalText b.idiom), ("reducer", ofOptionalText b.reducer),
    ("source_hook", ofOptionalText b.hook)]

/-- Reads a first value; data that counts as absent is none. -/
def initialOf (v : Value) : Attempt (Option PropValue) :=
  if v.truthy then do return some (← PropValue.ofSchema v) else .ok none

/-- Reads a binding from plain data. -/
def Binding.ofSchema (v : Value) : Attempt Binding := do
  let initial ← fieldOr v "initial_value" .null
  let kind ← match ← field v "pattern" with
    | .str s =>
      match Kind.ofName? s with
      | some k => pure k
      | none => .error .badText
    | _ => .error .badText
  let name ← asText (← field v "name")
  let initial ← initialOf initial
  let transitions ← (← asList (← fieldOr v "transitions" (.list []))).mapM Transition.ofSchema
  let optional := fun key => do asOptionalText (← fieldOr v key .null)
  return { kind, name, initial, transitions
           setter := ← optional "setter"
           typeHint := ← optional "type_hint"
           idiom := ← optional "source_idiom"
           reducer := ← optional "reducer"
           hook := ← optional "source_hook" }

end WidgetBridge.State
