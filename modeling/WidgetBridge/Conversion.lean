import WidgetBridge.Reading.ComponentSource
import WidgetBridge.Reading.WidgetSource
import WidgetBridge.Route.Guard
import WidgetBridge.Text.Utf8
import WidgetBridge.Writing.Component
import WidgetBridge.Writing.Widget

/-!
# Conversions

A conversion reads a source into a document, checks the document and writes it for the other
framework. The first step that fails ends it; the warnings of all steps are reported together.
-/

namespace WidgetBridge

open WidgetBridge.Text WidgetBridge.Config

/-! ## Reading -/

/-- The parts of a source in a framework. -/
def readParts (env : Environment) (framework : Framework) (source file : String) :
    Attempt Reading.SourceParts :=
  match framework with
  | .component => Reading.componentSource env.table source file
  | .widget => Reading.widgetSource env.table source

/-- Turns failures that concern the source into reports; others pass. -/
def reportSource {α : Type} (file : String) : Attempt (Outcome α) → Attempt (Outcome α)
  | .error (.malformed message place) => .ok (.failure [.parse message place file])
  | .error .ungrammatical => .ok (.failure [.ungrammatical file])
  | r => r

/-- Reads a source into a document. -/
def readSource (env : Environment) (framework : Framework) (source file : String) :
    Attempt (Outcome Document) :=
  reportSource file do
    let p ← readParts env framework source file
    return .success (p.document env.settings.version framework.name file env.now) p.warnings

/-- The report on a framework without support, for a source. -/
def unsupportedSource {α : Type} (framework file : String) : Outcome α :=
  .failure [.parse ("unsupported framework: " ++ framework) ⟨1, 1⟩ file]

/-- The report on a framework without support, for a target. -/
def unsupportedTarget {α : Type} (framework file : String) : Outcome α :=
  .failure [.generation ("unsupported framework: " ++ framework) "root" file]

/-- Reads a source in the framework of a name. -/
def parse (env : Environment) (framework source file : String) : Attempt (Outcome Document) :=
  match Framework.ofName? framework with
  | some f => readSource env f source file
  | none => .ok (unsupportedSource framework file)

/-! ## Routes -/

/-- The routes of a source in a framework. -/
def routesOf (framework : Framework) (source : String) : Attempt Route.Schema :=
  match framework with
  | .component => Route.ofComponentSource source
  | .widget => Route.ofWidgetSource source

/-- Reads the routes of a source in the framework of a name. -/
def parseRoutes (framework source file : String) : Attempt (Outcome Route.Schema) :=
  match Framework.ofName? framework with
  | some f =>
    reportSource file do
      let s ← routesOf f source
      return .success s (s.warnings.map .remark)
  | none => .ok (unsupportedSource framework file)

/-- The names of the guards that run before each route, in the order of the routes. -/
def effectiveGuards (s : Route.Schema) : List (List String) :=
  s.flatten.map fun r => (Route.guardsFor s.guards r .before).map Route.Guard.name

/-! ## Writing -/

/-- Writes a document in a framework. -/
def writeDocument (env : Environment) (framework : Framework) (d : Document) :
    Attempt (Outcome String) :=
  match d.root with
  | some (.element e children) =>
    let setting : Writing.Setting := ⟨env, framework, d.file⟩
    let writer := match framework with
      | .component => Writing.componentDocument setting d e children
      | .widget => Writing.widgetDocument setting d e children
    match writer.run {} with
    | (.ok source, draft) => .ok (.success source draft.warnings)
    | (.error (.generation message path), draft) =>
      .ok (.failure [.generation message path d.file] draft.warnings)
    | (.error e, _) => .error e
  | _ => .ok (.failure [.generation "root must be an element" "root" d.file])

/-- Writes a document in the framework of a name. -/
def generate (env : Environment) (framework : String) (d : Document) : Attempt (Outcome String) :=
  match Framework.ofName? framework with
  | some f => writeDocument env f d
  | none => .ok (unsupportedTarget framework d.file)

/-! ## Converting -/

/-- The outcome of a step after what earlier steps reported. -/
def Outcome.after {α : Type} (warnings : List Issue) (o : Outcome α) : Outcome α :=
  { o with warnings := warnings ++ o.warnings }

/-- The failed outcome of a step. -/
def Outcome.failed {α β : Type} (o : Outcome α) : Outcome β := .failure o.errors o.warnings

/-- Goes on with the value of a step that went well, and keeps its warnings. -/
def Outcome.andThen {α β : Type} (o : Outcome α) (next : α → Attempt (Outcome β)) :
    Attempt (Outcome β) :=
  match o.value with
  | some v => if o.isOk then (next v).map (·.after o.warnings) else .ok o.failed
  | none => .ok o.failed

/-- Converts a source between two frameworks. -/
def convertBetween (env : Environment) (source target : Framework) (text file : String) :
    Attempt (Outcome String) := do
  let parsed ← readSource env source text file
  parsed.andThen fun d =>
    (Validation.validate env.table d).andThen fun d => writeDocument env target d

/-- Converts a source between the frameworks of two names. -/
def convert (env : Environment) (source target text file : String) : Attempt (Outcome String) :=
  match Framework.ofName? source, Framework.ofName? target with
  | none, _ => .ok (unsupportedSource source file)
  | _, none => .ok (unsupportedTarget target file)
  | some s, some t => convertBetween env s t text file

/-- One conversion of several. -/
structure Request where
  text : String
  source : String
  target : String
  file : String := "<memory>"

/-- Converts several sources, each on its own, in the order of the requests. -/
def convertAll (env : Environment) (requests : List Request) (workers : Option Int) :
    Attempt (List (Outcome String)) :=
  if requests.isEmpty then .ok []
  else if (workers.getD 0) < 0 then .error .badText
  else requests.mapM fun r => convert env r.source r.target r.text r.file

/-! ## Files -/

/-- Text with every way to end a line written as a line feed. -/
def unifyLines : List Char → List Char
  | '\r' :: '\n' :: cs => '\n' :: unifyLines cs
  | '\r' :: cs => '\n' :: unifyLines cs
  | c :: cs => c :: unifyLines cs
  | [] => []

/-- Converts a file, given its bytes; `none` if there is no such file. The framework of the source
follows from the name. -/
def convertFile (env : Environment) (file target : String) (bytes : Option (List Nat)) :
    Attempt (Outcome String) :=
  match FileName.framework? file with
  | none =>
    .ok (.failure [.parse ("unsupported file type: " ++ FileName.suffix file) ⟨1, 1⟩ file])
  | some source =>
    match bytes.bind Utf8.decode? with
    | none => .ok (.failure [.unreadable ⟨1, 1⟩ file])
    | some s => convert env source.name target (String.ofList (unifyLines s.toList)) file

/-- Reads a file, given its bytes, in a framework. Bytes that are no text become replacement
characters. -/
def parseFile (env : Environment) (framework : Framework) (file : String)
    (bytes : Option (List Nat)) : Attempt (Outcome Document) :=
  match bytes with
  | none => .ok (.failure [.unreadable ⟨0, 0⟩ file])
  | some bs =>
    readSource env framework (String.ofList (unifyLines (Utf8.decode bs).toList)) file

/-! ## Names -/

/-- The names under which the operations on sources, documents and tables are known. -/
def operationNames : List String :=
  ["convert", "convert_file", "convert_many", "ConversionRequest", "parse", "generate", "validate",
    "to_schema", "from_schema", "get_registry", "reload_registry"]

end WidgetBridge
