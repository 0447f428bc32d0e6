import WidgetBridge.Config.Settings
import WidgetBridge.Mapping.Bundled
import WidgetBridge.Mapping.Record

/-!
# Sessions

A session works against a folder of configuration files. What it has read is kept until it is told
to read again: the configuration, the settings read from it, and the published mapping table.
-/

namespace WidgetBridge.Config

open WidgetBridge.Text WidgetBridge.Mapping

/-- The content of a table file. -/
inductive TableFile where
  /-- The table that is always there. -/
  | bundled
  /-- A table as data. -/
  | data (v : Value)

/-- The configuration files. -/
structure Folder where
  config : Option Value := none
  tables : Assoc TableFile := []

/-- The files that are always there. -/
def Folder.bundled : Folder :=
  { config := some (Settings.toValue {}), tables := [(Bundled.fileName, .bundled)] }

/-- Writes a configuration and tables. With a configuration comes the bundled table, unless there
is a table under its name. -/
def Folder.write (f : Folder) (config : Option Value) (tables : Assoc Value) : Folder :=
  let written := tables.foldl (fun acc e => acc.put e.1 (.data e.2)) f.tables
  match config with
  | none => { f with tables := written }
  | some c =>
    let all := if written.has Bundled.fileName then written
      else written.put Bundled.fileName .bundled
    { config := some c, tables := all }

private def pathParts (path : String) : List String :=
  (splitAt path '/').filter fun p => !p.isEmpty && p != "."

/-- The last part of a path, by which messages name a file; a path from the root is named in
full. -/
def shownFile (path : String) : String :=
  if hasHead path "/" then "/" ++ join "/" (pathParts path)
  else (pathParts path).getLast?.getD path

/-- The entries of a configured table file. -/
def Folder.entries (f : Folder) (path : String) : Attempt (List Entry) :=
  let shown := shownFile path
  let found := if hasHead path "/" then none else f.tables.get? (join "/" (pathParts path))
  match found with
  | some .bundled => .ok Bundled.entries
  | some (.data v) => Record.entriesOf shown v
  | none => .error (.mapping ("Mapping file not found: " ++ shown))

/-- A session. -/
structure Session where
  /-- Its own files, if it has any. -/
  folder : Option Folder := none
  config : Option Value := none
  settings : Option Settings := none
  table : Option Table := none

namespace Session

/-- The files that a session reads. -/
def files (s : Session) : Folder := s.folder.getD Folder.bundled

/-- The configuration, read if need be. -/
def readConfig (s : Session) : Value × Session :=
  match s.config with
  | some c => (c, s)
  | none =>
    let c := match s.files.config with
      | some v => if v.truthy then v else .map []
      | none => .map []
    (c, { s with config := some c })

/-- The settings, read if need be. -/
def readSettings (s : Session) : Attempt Settings × Session :=
  match s.settings with
  | some v => (.ok v, s)
  | none =>
    let (c, s) := s.readConfig
    match Settings.read? c with
    | some v => (.ok v, { s with settings := some v })
    | none => (.error .badSettings, s)

/-- The table of the configured files. -/
def loadConfigured (s : Session) : Attempt Table × Session :=
  let (settings, s) := s.readSettings
  let table := do
    let settings ← settings
    let names := settings.tableFile :: settings.extraFiles
    let entries ← names.mapM s.files.entries
    return Table.ofEntries entries.flatten (names.map shownFile)
  (table, s)

/-- The published table; the configured files are read if there is none. -/
def readTable (s : Session) : Attempt Table × Session :=
  match s.table with
  | some t => (.ok t, s)
  | none =>
    match s.loadConfigured with
    | (.ok t, s) => (.ok t, { s with table := some t })
    | (.error e, s) => (.error e, s)

/-- The name under which a table given as data is known. -/
def givenName : String := "table.yaml"

/-- The table of given data. -/
def loadGiven (v : Value) : Attempt Table := do
  return Table.ofEntries (← Record.entriesOf givenName v) [givenName]

/-- Publishes a table. A failure leaves the published one in place. -/
def publish (s : Session) : Attempt Table → Session
  | .ok t => { s with table := some t }
  | .error _ => s

/-- Writes configuration files; nothing that was read is kept. -/
def setConfig (s : Session) (config : Option Value) (tables : Assoc Value) : Session :=
  { folder := some ((s.folder.getD {}).write config tables) }

/-- Writes the configuration only; what was read is kept. -/
def writeConfig (s : Session) (config : Value) : Session :=
  { s with folder := some { s.folder.getD {} with config := some config } }

/-- Forgets the configuration and the settings, and keeps the table. -/
def reloadConfig (s : Session) : Session := { s with config := none, settings := none }

end Session

/-- What a conversion works with. -/
structure Environment where
  settings : Settings := {}
  table : Table := Bundled.table
  /-- What the clock reads, in seconds. -/
  now : Float := 0.0
  deriving Inhabited

/-- The environment of a session. -/
def Session.environment (s : Session) : Attempt Environment × Session :=
  match s.readTable with
  | (.error e, s) => (.error e, s)
  | (.ok table, s) =>
    match s.readSettings with
    | (.error e, s) => (.error e, s)
    | (.ok settings, s) => (.ok { settings, table }, s)

end WidgetBridge.Config
