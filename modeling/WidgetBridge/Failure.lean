import WidgetBridge.Value

/-!
# Failures

What can go wrong in one operation, as causes. Operations return `Except Failure`; the boundary
operations of the library turn the failures that concern their input into reports.
-/

namespace WidgetBridge

/-- A place in a source text: line and column, both counted from one. -/
structure Place where
  line : Nat
  column : Nat
  deriving Repr, DecidableEq, Inhabited

/-- Why an operation has no result. -/
inductive Failure where
  /-- A source text breaks a rule of its language. -/
  | malformed (message : String) (place : Place)
  /-- A component source does not follow the grammar. -/
  | ungrammatical
  /-- A node cannot be written in the target framework. -/
  | generation (message path : String)
  /-- A mapping table cannot be used. -/
  | mapping (message : String)
  /-- A prop value has no form on the other side. -/
  | transform (message : String)
  /-- A framework without support; `listed` if the message is to list the supported ones. -/
  | unsupportedFramework (name : String) (listed : Bool)
  /-- A node description of an unknown type. -/
  | unknownNode (type : Value)
  /-- A path was built without a parameter that it needs. -/
  | missingParameter (name : String)
  /-- A text is not the number, escape or keyword that it has to be. -/
  | badText
  /-- A required field is missing. -/
  | missingField
  /-- A value is of the wrong kind for an operation. -/
  | wrongKind
  /-- A number is too large for an operation. -/
  | tooLarge
  /-- An operation that the value at hand does not offer. -/
  | unsupported
  /-- A share of nothing. -/
  | divisionByZero
  /-- Nothing to choose from. -/
  | noChoice
  /-- A place past the end of a sequence. -/
  | pastEnd
  /-- A configuration breaks a rule of the settings. -/
  | badSettings
  deriving Inhabited

/-- A computation that may fail. -/
abbrev Attempt := Except Failure

end WidgetBridge
