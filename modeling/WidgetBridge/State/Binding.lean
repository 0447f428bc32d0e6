import WidgetBridge.PropValue

/-!
# State bindings

A binding is one piece of state that a component declares, free of the idiom in which it was
written: its kind, its name, its first value and the mutations that change it.
-/

namespace WidgetBridge.State

/-- Where a piece of state lives. -/
inductive Kind where
  /-- In the component itself. -/
  | local
  /-- In the component, changed by actions only. -/
  | reducer
  /-- In a store outside the component. -/
  | externalStore
  /-- In the surroundings of the component. -/
  | contextDerived
  deriving Repr, DecidableEq, Inhabited

/-- The name of a kind. -/
def Kind.name : Kind → String
  | .local => "local"
  | .reducer => "reducer"
  | .externalStore => "externalStore"
  | .contextDerived => "contextDerived"

/-- The kind of a name. -/
def Kind.ofName? : String → Option Kind
  | "local" => some .local
  | "reducer" => some .reducer
  | "externalStore" => some .externalStore
  | "contextDerived" => some .contextDerived
  | _ => none

/-- A named trigger and the mutation that it applies, as source text. -/
structure Transition where
  trigger : String
  mutation : String
  deriving Repr, DecidableEq, Inhabited

/-- One piece of state. -/
structure Binding where
  kind : Kind
  name : String
  initial : Option PropValue := none
  transitions : List Transition := []
  /-- The function that sets the state, by name. -/
  setter : Option String := none
  /-- The type in which the state was declared. -/
  typeHint : Option String := none
  /-- The idiom in which the state was written. -/
  idiom : Option String := none
  /-- The function that computes the next state, by name. -/
  reducer : Option String := none
  /-- The hook or accessor as it was written. -/
  hook : Option String := none
  deriving Inhabited

/-- A binding with one more transition. -/
def Binding.addTransition (b : Binding) (trigger mutation : String) : Binding :=
  { b with transitions := b.transitions ++ [⟨trigger, mutation⟩] }

end WidgetBridge.State
