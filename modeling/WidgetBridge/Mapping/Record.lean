import WidgetBridge.Config.Lenient
import WidgetBridge.Mapping.Table

/-!
# Reading mapping tables

A table file is a list of records, or a map that holds the list under `mappings`. Each record is
read on its own terms first; then names of transforms, arities and slots are checked.
-/

namespace WidgetBridge.Mapping.Record

open WidgetBridge.Text WidgetBridge.Config

/-- A prop rule as a file states it. -/
structure PropRecord where
  target : String
  transform : String
  aliases : List String
  targetAliases : List String
  style : Bool
  values : Assoc String

/-- An entry as a file states it. -/
structure EntryRecord where
  source : String
  target : String
  aliases : List String
  targetAliases : Assoc (Assoc Value)
  imports : Assoc (List String)
  arity : String
  textMode : String
  childSlot : String
  groups : Assoc String
  layout : Option Layout
  props : Assoc PropRecord

/-- Reads a prop rule. -/
def readProp : Reader PropRecord
  | .map es => do
    return { target := ← required es "target" Reader.text
             transform := ← defaulted es "transform" Reader.text "identity"
             aliases := ← defaulted es "aliases" (Reader.list Reader.text) []
             targetAliases := ← defaulted es "target_aliases" (Reader.list Reader.text) []
             style := ← defaulted es "style" Reader.truth false
             values := ← defaulted es "values" (Reader.assoc Reader.text) [] }
  | _ => none

/-- Reads a layout. -/
def readLayout : Reader Layout
  | .map es => do
    return { prop := ← required es "prop" Reader.text
             fallback := ← required es "default" Reader.text
             widgets := ← required es "widgets" (Reader.assoc Reader.text) }
  | _ => none

/-- Reads an entry. -/
def readEntry : Reader EntryRecord
  | .map es => do
    return { source := ← required es "source" Reader.text
             target := ← required es "target" Reader.text
             aliases := ← defaulted es "aliases" (Reader.list Reader.text) []
             targetAliases :=
               ← defaulted es "target_aliases" (Reader.assoc (Reader.assoc Reader.data)) []
             imports := ← defaulted es "imports" (Reader.assoc (Reader.list Reader.text)) []
             arity := ← defaulted es "arity" Reader.text "multi"
             textMode := ← defaulted es "text_children" Reader.text "none"
             childSlot := ← defaulted es "child_slot" Reader.text "children"
             groups := ← defaulted es "groups" (Reader.assoc Reader.text) []
             layout := ← defaulted es "layout" (Reader.optional readLayout) none
             props := ← defaulted es "props" (Reader.assoc readProp) [] }
  | _ => none

/-- The rule of a prop record, if its transform is known. -/
def ruleOf (source : String) (p : String × PropRecord) : Attempt PropRule :=
  match Transform.ofName? p.2.transform with
  | some transform =>
    .ok { name := p.1, target := p.2.target, transform, aliases := p.2.aliases
          targetAliases := p.2.targetAliases, style := p.2.style, values := p.2.values }
  | none =>
    .error (.mapping (source ++ "." ++ p.1 ++ ": unknown transform " ++
      Value.quote p.2.transform))

/-- The entry of a record, if its names are known. -/
def entryOf (r : EntryRecord) : Attempt Entry := do
  let props ← r.props.mapM (ruleOf r.source)
  let refuse := fun (rule : String) => Failure.mapping (r.source ++ ": " ++ rule)
  let arity ← match Arity.ofName? r.arity with
    | some a => pure a
    | none => throw (refuse "arity must be one of ('leaf', 'single', 'multi')")
  let textMode ← match TextMode.ofName? r.textMode with
    | some m => pure m
    | none => throw (refuse "text_children must be one of ('positional', 'wrap', 'none')")
  if !isIdentifier r.childSlot then
    throw (refuse
      "child_slot must be one of ('child', 'children', 'none') or an argument name")
  return { source := r.source, target := r.target, props, imports := r.imports
           aliases := r.aliases, targetAliases := r.targetAliases, arity, textMode
           childSlot := r.childSlot, groups := r.groups, layout := r.layout }

private def recordNumber (n : Nat) : String := String.ofList (Nat.toDigits 10 n)

/-- Reads the records of a list, counting from an index. -/
def readRecords (file : String) : Nat → List Value → Attempt (List EntryRecord)
  | _, [] => .ok []
  | i, v :: vs =>
    match readEntry v with
    | some r => do return r :: (← readRecords file (i + 1) vs)
    | none => .error (.mapping (file ++ ": record " ++ recordNumber i ++ " is invalid"))

/-- The entries of a table file. -/
def entriesOf (file : String) (content : Value) : Attempt (List Entry) := do
  let content := if content.truthy then content else .map []
  let raw := match content with
    | .map es => (Assoc.get? es "mappings").getD (.list [])
    | v => v
  match raw with
  | .list vs => (← readRecords file 0 vs).mapM entryOf
  | _ => throw (.mapping (file ++ ": 'mappings' must be a list"))

end WidgetBridge.Mapping.Record
