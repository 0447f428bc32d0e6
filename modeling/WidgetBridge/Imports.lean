import WidgetBridge.Text.Pattern
import WidgetBridge.Value

/-!
# Imports

The imports that generated source needs: the names taken from each module, the default of a
module, and statements that are kept as they were written. Names form sets; they are written in
sorted order.
-/

namespace WidgetBridge

open WidgetBridge.Text

/-- Texts in ascending order of their characters. -/
def sortTexts (ss : List String) : List String := ss.mergeSort fun a b => !decide (b < a)

/-- Adds texts to a set of texts. -/
def addTexts (set new : List String) : List String :=
  new.foldl (fun acc s => if acc.contains s then acc else acc ++ [s]) set

/-- Names by module. -/
abbrev ModuleNames := Assoc (List String)

namespace ModuleNames

/-- Takes names from a module. -/
def add (m : ModuleNames) (module : String) (names : List String) : ModuleNames :=
  Assoc.put m module (addTexts ((Assoc.get? m module).getD []) names)

/-- Takes all names of another table. -/
def merge (m other : ModuleNames) : ModuleNames := other.foldl (fun acc e => add acc e.1 e.2) m

end ModuleNames

/-- The imports of a source. -/
structure Imports where
  named : ModuleNames := []
  defaults : Assoc String := []
  raw : List String := []
  deriving Inhabited

namespace Imports

/-- Takes names from a module. -/
def add (i : Imports) (module : String) (names : List String) : Imports :=
  { i with named := ModuleNames.add i.named module names }

/-- Takes all names of a table. -/
def merge (i : Imports) (names : ModuleNames) : Imports :=
  { i with named := ModuleNames.merge i.named names }

namespace Form

open Pattern

private def quoteMark : Pattern := oneOf "'\""
private def modulePath : Pattern := quoteMark ++ group 3 (many1 (noneOf "'\"")) ++ quoteMark

/-- An import of component source: a default, names in braces, and the module. -/
def component : Pattern :=
  textStart ++ lit "import" ++ blanks1 ++
    opt (group 1 name ++ blanks ++ opt (lit ",") ++ blanks) ++
    opt (lit "\x7b" ++ group 2 (many (noneOf "\x7d")) ++ lit "\x7d" ++ blanks) ++
    lit "from" ++ blanks1 ++ modulePath ++ blanks ++ opt (lit ";") ++ textEnd

/-- An import of widget source. -/
def widget : Pattern :=
  textStart ++ lit "import" ++ blanks1 ++ modulePath ++ blanks ++ lit ";" ++ textEnd

end Form

/-- Takes an import statement in. The result is `none` if the text is no import; one that does not
fit the table is kept as it is. -/
def take? (i : Imports) (source : String) : Option Imports :=
  let s := trim source
  if !hasHead s "import " then none
  else
    let component := (Form.component.matchStart? s).bind fun m =>
      if (m.group? 1).isSome || (m.group? 2).isSome then some m else none
    match component with
    | some m =>
      let module := m.get 3
      let i := match m.group? 1 with
        | some d => { i with defaults := i.defaults.put module d }
        | none => i
      let names := ((splitAt (m.get 2) ',').map trim).filter fun n => !n.isEmpty
      some (i.add module names)
    | none =>
      match Form.widget.matchStart? s with
      | some m => some (i.add (m.get 3) [])
      | none => some { i with raw := addTexts i.raw [s] }

end Imports

end WidgetBridge
