import WidgetBridge.Framework

/-!
# File names

What a file name says: its extension, the framework that the extension stands for, and the name of
the component that the file holds.
-/

namespace WidgetBridge.FileName

open WidgetBridge.Text

/-- The last part of a path. -/
def base (path : String) : String :=
  (((splitAt path '/').filter fun p => !p.isEmpty && p != ".").getLast?).getD ""

/-- The part of a name before its last dot, and from it on. A dot at either end divides nothing. -/
def splitSuffix (name : String) : String × String :=
  match cutLast? name "." with
  | some (stem, rest) =>
    if stem.isEmpty || rest.isEmpty then (name, "") else (stem, "." ++ rest)
  | none => (name, "")

/-- The last part of a path without its suffix. -/
def stem (path : String) : String := (splitSuffix (base path)).1

/-- The suffix of a path. -/
def suffix (path : String) : String := (splitSuffix (base path)).2

/-- The extension of a path: from the last dot of its last part on, leading dots apart. -/
def extension (path : String) : String :=
  let name := ((splitAt path '/').getLast?).getD ""
  let body := String.ofList (name.toList.dropWhile (· == '.'))
  match cutLast? body "." with
  | some (_, rest) => "." ++ rest
  | none => ""

/-- The framework of a path, by its extension. -/
def framework? (path : String) : Option Framework :=
  match lower (extension path) with
  | ".tsx" | ".jsx" | ".ts" | ".js" => some .component
  | ".dart" => some .widget
  | _ => none

/-- The component of a path: the words of its stem, each with a capital. A text in angle brackets
is no path. -/
def component? (path : String) : Option String :=
  if hasHead path "<" then none
  else
    let words := (splitAt (replaceChar '-' "_" (stem path)) '_').filter fun w => !w.isEmpty
    let name := String.join (words.map capitalizeFirst)
    if name.isEmpty then none else some name

end WidgetBridge.FileName
