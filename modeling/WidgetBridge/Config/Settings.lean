import WidgetBridge.Config.Lenient

/-!
# Settings

The settings of a conversion, read from a configuration. Every setting has a default.
-/

namespace WidgetBridge.Config

/-- The settings. -/
structure Settings where
  /-- The version that parsed documents carry. -/
  version : String := "1.0.0"
  /-- One step of indentation in generated source. -/
  indent : String := "  "
  /-- The module of components without one of their own. -/
  componentModule : String := "react-native"
  /-- Where a rejected navigation leads. -/
  unauthorizedRoute : String := "/unauthorized"
  /-- The mapping table. -/
  tableFile : String := "widget_mappings.yaml"
  /-- Mapping tables on top of it. -/
  extraFiles : List String := []
  /-- The state idiom of each framework and kind of state. -/
  idioms : Assoc (Assoc String) := [
    ("componentModel", [("local", "useState"), ("reducer", "useReducer"),
      ("externalStore", "storeHook"), ("contextDerived", "contextHook")]),
    ("widgetTree", [("local", "setState"), ("reducer", "bloc"),
      ("externalStore", "riverpod"), ("contextDerived", "inheritedLookup")])]
  /-- The effect, length and easing of a transition that states none. -/
  effect : String := "platformDefault"
  effectDuration : Int := 300
  effectEasing : String := "easeInOut"
  /-- How many conversions may run at a time. -/
  workers : Int := 4
  deriving Inhabited

private def section? (es : Assoc Value) (key : String) : Option (Assoc Value) :=
  match es.get? key with
  | some (.map fields) => some fields
  | some _ => none
  | none => some []

/-- Reads settings from a configuration. -/
def Settings.read? : Reader Settings
  | .map es => do
    let base : Settings := {}
    let converter ← section? es "converter"
    let mappings ← section? es "mappings"
    let state ← section? es "state"
    let navigation ← section? es "navigation"
    let transition ← section? navigation "default_transition"
    let engine ← section? es "engine"
    let workers ← defaulted engine "max_workers" Reader.whole base.workers
    if workers < 1 then none
    return {
      version := ← defaulted converter "ir_version" Reader.text base.version
      indent := ← defaulted converter "indent" Reader.text base.indent
      componentModule :=
        ← defaulted converter "component_module" Reader.text base.componentModule
      unauthorizedRoute :=
        ← defaulted converter "unauthorized_route" Reader.text base.unauthorizedRoute
      tableFile := ← defaulted mappings "default_file" Reader.text base.tableFile
      extraFiles := ← defaulted mappings "extra_files" (Reader.list Reader.text) []
      idioms := ← defaulted state "defaults" (Reader.assoc (Reader.assoc Reader.text))
        base.idioms
      effect := ← defaulted transition "type" Reader.text base.effect
      effectDuration := ← defaulted transition "duration" Reader.whole base.effectDuration
      effectEasing := ← defaulted transition "easing" Reader.text base.effectEasing
      workers }
  | _ => none

/-- The settings as a configuration that states all of them. -/
def Settings.toValue (s : Settings) : Value :=
  .map [
    ("converter", .map [("ir_version", .str s.version), ("indent", .str s.indent),
      ("component_module", .str s.componentModule),
      ("unauthorized_route", .str s.unauthorizedRoute)]),
    ("mappings", .map [("default_file", .str s.tableFile),
      ("extra_files", .list (s.extraFiles.map .str))]),
    ("state", .map [("defaults", .map (s.idioms.map fun e =>
      (e.1, .map (e.2.map fun f => (f.1, .str f.2)))))]),
    ("navigation", .map [("default_transition", .map [("type", .str s.effect),
      ("duration", .int s.effectDuration), ("easing", .str s.effectEasing)])]),
    ("engine", .map [("max_workers", .int s.workers)])]

/-- The value at a dotted key of a configuration, or a value in its place. -/
def lookupKey (config : Value) (key : String) (fallback : Value) : Value :=
  (Text.splitAt key '.').foldl (fun (found : Option Value) part =>
    found.bind fun v => v.get? part) (some config) |>.getD fallback

end WidgetBridge.Config
