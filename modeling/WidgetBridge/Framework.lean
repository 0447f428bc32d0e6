import WidgetBridge.Text.Basic

/-!
# Frameworks

The two frameworks between which components are carried: the component model, whose sources are
markup in code, and the widget tree, whose sources are nested constructor calls.
-/

namespace WidgetBridge

/-- A framework. -/
inductive Framework where
  | component
  | widget
  deriving Repr, DecidableEq, Inhabited

namespace Framework

/-- The name of a framework. -/
def name : Framework → String
  | .component => "componentModel"
  | .widget => "widgetTree"

/-- The framework of a name. -/
def ofName? : String → Option Framework
  | "componentModel" => some .component
  | "widgetTree" => some .widget
  | _ => none

/-- Every framework is found under its own name. -/
@[simp] theorem ofName?_name (f : Framework) : ofName? f.name = some f := by
  cases f <;> rfl

end Framework

end WidgetBridge
