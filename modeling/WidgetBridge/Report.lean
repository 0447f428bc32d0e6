import WidgetBridge.Failure

/-!
# Reports

What an operation tells about its input. `Issue` is one finding, `Outcome` a result with its
findings: an outcome with errors has no value, and warnings may accompany a value.
-/

namespace WidgetBridge

/-- What a finding about a document concerns. -/
inductive Concern where
  /-- The tree breaks an invariant. -/
  | structural
  /-- A widget without mapping. -/
  | unknownWidget
  /-- A prop without mapping. -/
  | unresolvedProp
  deriving Repr, DecidableEq

/-- The name of a concern. -/
def Concern.name : Concern → String
  | .structural => "structural"
  | .unknownWidget => "unknownWidget"
  | .unresolvedProp => "unresolvedProp"

/-- One finding. -/
inductive Issue where
  /-- A source breaks a rule of its language. -/
  | parse (message : String) (place : Place) (file : String)
  /-- A component source does not follow the grammar. -/
  | ungrammatical (file : String)
  /-- A source cannot be read. -/
  | unreadable (place : Place) (file : String)
  /-- A document breaks an invariant, or lacks a mapping. -/
  | validation (concern : Concern) (path message file : String)
  /-- A node cannot be written. -/
  | generation (message path file : String)
  /-- A remark in words. -/
  | remark (text : String)
  deriving Repr, DecidableEq

namespace Issue

private def natText (n : Nat) : String := String.ofList (Nat.toDigits 10 n)

/-- A finding on one line. -/
def text : Issue → String
  | .parse message place file =>
    file ++ ":" ++ natText place.line ++ ":" ++ natText place.column ++ ": " ++ message
  | .ungrammatical file => file
  | .unreadable _ file => file
  | .validation concern path message file =>
    file ++ ": " ++ path ++ ": [" ++ concern.name ++ "] " ++ message
  | .generation message path file => file ++ ": " ++ path ++ ": " ++ message
  | .remark text => text

end Issue

/-- A result together with what was found on the way. -/
structure Outcome (α : Type) where
  value : Option α := none
  errors : List Issue := []
  warnings : List Issue := []

namespace Outcome

variable {α β : Type}

/-- An outcome with a value. -/
def success (value : α) (warnings : List Issue := []) : Outcome α := ⟨some value, [], warnings⟩

/-- An outcome without a value. -/
def failure (errors : List Issue) (warnings : List Issue := []) : Outcome α :=
  ⟨none, errors, warnings⟩

/-- Whether nothing went wrong. -/
def isOk (o : Outcome α) : Bool := o.errors.isEmpty

/-- How an operation went, in one word. -/
def status (o : Outcome α) : String :=
  if !o.errors.isEmpty then "failure"
  else if !o.warnings.isEmpty then "success_with_warnings"
  else "success"

/-- The value, or the texts of the errors. -/
def unwrap (o : Outcome α) : Except String (Option α) :=
  if o.errors.isEmpty then .ok o.value
  else .error (Text.join "; " (o.errors.map Issue.text))

/-- Carries the value on. -/
def map (f : α → β) (o : Outcome α) : Outcome β := ⟨o.value.map f, o.errors, o.warnings⟩

end Outcome

end WidgetBridge
