import WidgetBridge.Node
import WidgetBridge.Report

/-!
# What a source holds

A reader of either framework finds a tree and the source around it; `SourceParts` holds both, with
what was found on the way. `Reader` is a step of reading, which may note something and may fail.
-/

namespace WidgetBridge.Reading

/-- The parts of a source. -/
structure SourceParts where
  root : Node
  component : Option String := none
  prelude : List String := []
  members : List String := []
  declarations : List String := []
  warnings : List Issue := []

/-- The document of the parts of a source that was read at some time. -/
def SourceParts.document (p : SourceParts) (version framework file : String) (now : Float) :
    Document :=
  { version, framework, file, generatedAt := .float now, component := p.component
    prelude := p.prelude, members := p.members, declarations := p.declarations
    root := some p.root }

/-- What was noted while a tree was read. -/
structure Notes where
  warnings : List Issue := []
  /-- The declarations that went into routes. -/
  consumed : List String := []
  /-- Whether a router was found. -/
  routed : Bool := false

/-- A step of reading, which may note something and may fail. -/
abbrev Reader := StateT Notes Attempt

/-- Notes some findings. -/
def note (issues : List Issue) : Reader Unit :=
  modify fun n => { n with warnings := n.warnings ++ issues }

/-- A tree with an element at its root: the only node if that is an element, or else a view
around the nodes. -/
def rootOf : List Node → Element × List Node
  | [.element e children] => (e, children)
  | nodes => ({ widget := "View" }, nodes)

end WidgetBridge.Reading
