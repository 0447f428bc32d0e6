import WidgetBridge.Mapping.Table
import WidgetBridge.Node
import WidgetBridge.Payload
import WidgetBridge.Report

/-!
# Validation

A document is checked against the invariants of trees, which are fatal when broken, and against a
mapping table, whose gaps are warnings: they stay visible without ending a conversion. The payloads
of the document may be of any kind; that they are texts is one of the invariants.
-/

namespace WidgetBridge.Validation

open WidgetBridge.Mapping

variable {σ : Type}

/-- A finding before it is tied to a file. -/
structure Finding where
  concern : Concern
  path : String
  message : String
  deriving Repr, DecidableEq

/-- The entry of an element: by its neutral name, or else as a component tag. -/
def entryOf? (t : Table) (e : Element σ) : Option Entry :=
  if e.isPlaceholder then none
  else match t.get? e.widget with
    | some entry => some entry
    | none => t.forward? e.widget

/-- Findings about the name of an element. -/
def checkName (t : Table) (e : Element σ) (path : String) : List Finding :=
  if e.isPlaceholder then
    match e.standsFor with
    | some name =>
      if name.isEmpty then [⟨.structural, path, "unknown placeholder without original_type"⟩]
      else [⟨.unknownWidget, path,
        "'" ++ name ++ "' has no mapping and is kept as a placeholder"⟩]
    | none => [⟨.structural, path, "unknown placeholder without original_type"⟩]
  else if (entryOf? t e).isSome then []
  else [⟨.unknownWidget, path,
    "widget type '" ++ e.widget ++ "' is not in the mapping registry"⟩]

/-- Findings about the payload of a node or a prop, which has to be a text. -/
def checkPayload [Payload σ] (path message : String) (x : σ) : List Finding :=
  if Payload.isText x then [] else [⟨.structural, path, message⟩]

/-- Findings about one prop. -/
def checkProp [Payload σ] (entry : Option Entry) (path : String) (p : String × PropValue σ) :
    List Finding :=
  let path := path ++ ".props." ++ p.1
  let own := match p.2 with
    | .lit _ v =>
      if p.2.matchesKind then []
      else [⟨.structural, path, "literal value " ++ v.quoted ++ " does not match kind"⟩]
    | .expr s => checkPayload path "expression source must be a string" s
  let declared := match entry with
    | some entry =>
      if Entry.commonProps.contains p.1 || (entry.findProp? p.1).isSome then []
      else [⟨.unresolvedProp, path, entry.source ++ " does not declare prop '" ++ p.1 ++ "'"⟩]
    | none => []
  own ++ declared

/-- Findings about the number of children. All texts and slots together count as one child. -/
def checkArity (entry : Entry) (e : Element σ) (children : List (Node σ))
    (path : String) : List Finding :=
  let elements := children.countP Node.isElement
  let hasText := children.any fun c => !c.isElement
  match entry.arity with
  | .leaf =>
    if elements > 0 || (hasText && entry.textMode == .none) then
      [⟨.structural, path, e.widget ++ " is a leaf and cannot have children"⟩]
    else []
  | .single =>
    let count := elements + (if hasText then 1 else 0)
    if count > 1 then
      [⟨.structural, path,
        e.widget ++ " accepts a single child, got " ++ Number.showInt count⟩]
    else []
  | .multi => []

variable [Payload σ]

/-- Findings about an element on its own. -/
def checkElement (t : Table) (e : Element σ) (children : List (Node σ)) (path : String) :
    List Finding :=
  let entry := entryOf? t e
  checkName t e path ++ e.props.flatMap (checkProp entry path) ++
    (match entry with
      | some entry => checkArity entry e children path
      | none => [])

mutual

/-- Findings about a tree at a path, parents before children. -/
def checkTree (t : Table) (path : String) : Node σ → List Finding
  | .element e cs => checkElement t e cs path ++ checkTrees t path 0 cs
  | .text v => checkPayload path "TextLiteral value must be a string" v
  | .slot s => checkPayload path "ExpressionSlot source must be a string" s

/-- Findings about the trees below a path from an index on. -/
def checkTrees (t : Table) (path : String) (index : Nat) : List (Node σ) → List Finding
  | [] => []
  | n :: ns => checkTree t (Node.childPath path index) n ++ checkTrees t path (index + 1) ns

end

/-- Findings about a document. -/
def check (t : Table) (d : Document σ) : List Finding :=
  match d.root with
  | none => [⟨.structural, "root", "document has no root node"⟩]
  | some root => checkTree t "root" root

/-- Checks a document. A structural finding is an error, any other a warning. -/
def validate (t : Table) (d : Document σ) : Outcome (Document σ) :=
  let (fatal, rest) := (check t d).partition fun f => f.concern == .structural
  let issue := fun (f : Finding) => Issue.validation f.concern f.path f.message d.file
  if fatal.isEmpty then .success d (rest.map issue)
  else .failure (fatal.map issue) (rest.map issue)

end WidgetBridge.Validation
