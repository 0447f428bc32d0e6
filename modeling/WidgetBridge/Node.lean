import WidgetBridge.Motion.Spec
import WidgetBridge.Route.Schema
import WidgetBridge.State.Binding

/-!
# Nodes and documents

The neutral form of a component: a tree of elements, texts and slots for source that is carried as
it is. A document is such a tree with what its source held around it. `Node σ` is a tree whose
texts, slots and expressions hold payloads of a type `σ`; they are texts where nothing else is said.
-/

namespace WidgetBridge

variable {σ : Type}

/-- What an element carries beside its place in the tree. -/
inductive Attachment where
  /-- Plain data. -/
  | data (v : Value)
  /-- The routes that the element holds. -/
  | routes (schema : Route.Schema)
  deriving Inhabited

/-- An attachment as plain data. -/
def Attachment.toValue : Attachment → Value
  | .data v => v
  | .routes s => s.toValue

/-- An element without its children. -/
structure Element (σ : Type := String) where
  /-- The name of the widget; `unknownWidget` for a placeholder. -/
  widget : String
  props : Props σ := []
  bindings : List State.Binding := []
  motion : Option Motion.Spec := none
  /-- The name that a placeholder stands for. -/
  standsFor : Option String := none
  attached : Assoc Attachment := []
  deriving Inhabited

/-- The widget name of placeholders. -/
def unknownWidget : String := "unknown"

/-- Whether an element is a placeholder for a widget without mapping. -/
def Element.isPlaceholder (e : Element σ) : Bool := e.widget == unknownWidget

/-- The attribute in which written markup names the widget that a placeholder stands for. -/
def placeholderAttribute : String := "data-unmapped"

/-- The attachment that marks a view around markup which stayed an expression. -/
def markupKey : String := "markupExpression"

/-- The attachment that holds the parameters of a component as they were written. -/
def paramsKey : String := "params"

/-- A placeholder for a widget without mapping. -/
def Element.placeholder (name : String) (props : Props) : Element :=
  { widget := unknownWidget, props := props, standsFor := some name }

/-- A node of a component tree. -/
inductive Node (σ : Type := String) where
  /-- A widget with its children. -/
  | element (e : Element σ) (children : List (Node σ))
  /-- Running text. -/
  | text (value : σ)
  /-- Source that is carried as it is. -/
  | slot (source : σ)
  deriving Inhabited

namespace Node

/-- Whether a node is an element. -/
def isElement : Node σ → Bool
  | .element _ _ => true
  | _ => false

/-- The children of a node. -/
def children : Node σ → List (Node σ)
  | .element _ cs => cs
  | _ => []

/-! ## Paths -/

/-- The path of a child. -/
def childPath (path : String) (index : Int) : String :=
  path ++ ".children[" ++ Number.showInt index ++ "]"

/-- The path that a list of child indexes leads along. -/
def pathOf (indexes : List Int) : String := indexes.foldl childPath "root"

mutual

/-- A node and all nodes below it with their paths, parents before children. -/
def walk (path : String) : Node σ → List (String × Node σ)
  | .element e cs => (path, .element e cs) :: walkAll path 0 cs
  | .text v => [(path, .text v)]
  | .slot s => [(path, .slot s)]

/-- The nodes of a list of children from an index on, and all below them, with their paths. -/
def walkAll (path : String) (index : Nat) : List (Node σ) → List (String × Node σ)
  | [] => []
  | n :: ns => walk (childPath path index) n ++ walkAll path (index + 1) ns

end

mutual

/-- The tree with the node at a path replaced. A path that leads nowhere changes nothing. -/
def replace (target : String) (new : Node σ) (path : String) : Node σ → Node σ
  | .element e cs =>
    if path == target then new
    else if Text.hasHead target (path ++ ".children[") then
      .element e (replaceAll target new path 0 cs)
    else .element e cs
  | .text v => if path == target then new else .text v
  | .slot s => if path == target then new else .slot s

/-- The children from an index on with the node at a path replaced. -/
def replaceAll (target : String) (new : Node σ) (path : String) (index : Nat) :
    List (Node σ) → List (Node σ)
  | [] => []
  | n :: ns =>
    replace target new (childPath path index) n :: replaceAll target new path (index + 1) ns

end

end Node

/-- A component with what its source held around it. -/
structure Document (σ : Type := String) where
  version : String := "1.0.0"
  /-- The name of the framework of the source. -/
  framework : String
  file : String := "<memory>"
  /-- When the document was made, in seconds. -/
  generatedAt : Value := .float 0.0
  component : Option String := none
  /-- Statements before the returned tree. -/
  prelude : List String := []
  /-- Members of the class of the component. -/
  members : List String := []
  /-- Declarations outside the component. -/
  declarations : List String := []
  root : Option (Node σ) := none
  deriving Inhabited

/-- The document with another root. -/
def Document.withRoot (d : Document σ) (root : Node σ) : Document σ := { d with root := some root }

end WidgetBridge
