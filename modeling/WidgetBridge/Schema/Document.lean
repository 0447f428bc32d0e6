import WidgetBridge.Node
import WidgetBridge.Schema.Binding
import WidgetBridge.Schema.Motion

/-!
# Schemas of documents

A document as plain data, which a rendering client can build a live tree from, and back. Attached
routes become plain data on the way out and stay plain data on the way in.
-/

namespace WidgetBridge

open WidgetBridge.Schema

variable {σ : Type}

/-! ## Writing -/

/-- A field that is left out where it is absent. -/
def fieldUnless (absent : Bool) (key : String) (v : Value) : List (String × Value) :=
  if absent then [] else [(key, v)]

/-- The fields of an element that are present only where they say something. -/
def Element.optionalFields (e : Element σ) : List (String × Value) :=
  fieldUnless ((e.standsFor.getD "").isEmpty) "originalType" (ofOptionalText e.standsFor) ++
    fieldUnless e.bindings.isEmpty "stateBindings"
      (.list (e.bindings.map State.Binding.toSchema)) ++
    (match e.motion with
      | some spec => [("animation", spec.toSchema)]
      | none => []) ++
    fieldUnless e.attached.isEmpty "metadata" (.map (e.attached.map fun a => (a.1, a.2.toValue)))

namespace Node

variable [Payload σ]

mutual

/-- A node as plain data. -/
def toSchema : Node σ → Value
  | .element e cs =>
    .map ([("type", .str "element"), ("widgetType", .str e.widget),
      ("props", .map (e.props.map fun p => (p.1, p.2.toSchema))),
      ("children", .list (toSchemas cs))] ++ e.optionalFields)
  | .text v => .map [("type", .str "text"), ("value", Payload.toValue v)]
  | .slot s => .map [("type", .str "expression"), ("source", Payload.toValue s)]

/-- Nodes as plain data. -/
def toSchemas : List (Node σ) → List Value
  | [] => []
  | n :: ns => n.toSchema :: toSchemas ns

end

/-! ## Reading -/

/-- Reads the props of an element. -/
def propsOf (v : Value) : Attempt (Props σ) := do
  (← asMap (← fieldOr v "props" (.map []))).mapM fun e => do
    return (e.1, ← PropValue.ofSchema e.2)

/-- Reads the motion of an element; data that counts as absent is none. -/
def motionOf (v : Value) : Attempt (Option Motion.Spec) := do
  let m ← fieldOr v "animation" .null
  if m.truthy then return some (← Motion.Spec.ofSchema m) else return none

/-- Reads what an element carries. -/
def attachedOf (v : Value) : Attempt (Assoc Attachment) := do
  match ← fieldOr v "metadata" (.map []) with
  | .map es => return es.map fun e => (e.1, .data e.2)
  | .list [] => return []
  | .str "" => return []
  | _ => .error .wrongKind

mutual

/-- Reads a node from plain data. -/
def ofSchema : Value → Attempt (Node σ)
  | .map es => do
    let v := Value.map es
    match (Assoc.get? es "type").getD .null with
    | .str "text" => return .text (← Payload.ofValue (← field v "value"))
    | .str "expression" => return .slot (← Payload.ofValue (← field v "source"))
    | .str "element" =>
      let motion ← motionOf v
      let widget ← asText (← field v "widgetType")
      let props ← propsOf v
      let children ← childrenOf es
      let bindings ←
        (← asList (← fieldOr v "stateBindings" (.list []))).mapM State.Binding.ofSchema
      let standsFor ← asOptionalText (← fieldOr v "originalType" .null)
      let attached ← attachedOf v
      return .element { widget, props, bindings, motion, standsFor, attached } children
    | kind => .error (.unknownNode kind)
  | _ => .error .unsupported

/-- Reads the children among the fields of an element. -/
def childrenOf : List (String × Value) → Attempt (List (Node σ))
  | [] => .ok []
  | (key, v) :: es => if key == "children" then nodesOf v else childrenOf es

/-- Reads a list of nodes. -/
def nodesOf : Value → Attempt (List (Node σ))
  | .list vs => ofSchemas vs
  | .map [] => .ok []
  | .str "" => .ok []
  | .map _ => .error .unsupported
  | .str _ => .error .unsupported
  | _ => .error .wrongKind

/-- Reads nodes, one after the other. -/
def ofSchemas : List Value → Attempt (List (Node σ))
  | [] => .ok []
  | v :: vs => do
    let n ← ofSchema v
    return n :: (← ofSchemas vs)

end

end Node

namespace Document

variable [Payload σ]

/-- A document as plain data. -/
def toSchema (d : Document σ) : Value :=
  .map [("version", .str d.version),
    ("metadata", .map [("sourceFramework", .str d.framework), ("sourceFile", .str d.file),
      ("generatedAt", d.generatedAt), ("componentName", ofOptionalText d.component),
      ("prelude", .list (d.prelude.map .str)), ("members", .list (d.members.map .str)),
      ("declarations", .list (d.declarations.map .str))]),
    ("root", (d.root.map Node.toSchema).getD .null)]

/-- Reads the root of a document. -/
def rootOf : Value → Attempt (Option (Node σ))
  | .null => .ok none
  | v => do return some (← Node.ofSchema v)

/-- Reads a document from plain data. -/
def ofSchema (v : Value) : Attempt (Document σ) := do
  let info ← fieldOr v "metadata" (.map [])
  let root ← fieldOr v "root" .null
  let version ← asText (← fieldOr v "version" (.str "1.0.0"))
  let framework ← asText (← field info "sourceFramework")
  let file ← asText (← fieldOr info "sourceFile" (.str "<memory>"))
  let generatedAt ← fieldOr info "generatedAt" (.float 0.0)
  let component ← asOptionalText (← fieldOr info "componentName" .null)
  let texts := fun key => do asTexts (← fieldOr info key (.list []))
  let prelude ← texts "prelude"
  let members ← texts "members"
  let declarations ← texts "declarations"
  let root ← rootOf root
  return { version, framework, file, generatedAt, component, prelude, members, declarations, root }

end Document

end WidgetBridge
