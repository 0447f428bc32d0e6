import WidgetBridge.Text.Entity

/-!
# Text in markup

A text between tags may run over several lines. `markupText` joins its lines: blanks next to a line
break vanish, so do empty lines, and what is left is joined with single spaces. Character
references are replaced at the end.
-/

namespace WidgetBridge.ComponentGrammar

open WidgetBridge.Text

/-- The lines of a text, which end with a carriage return, a line feed or both. -/
def splitLines : List Char → List (List Char)
  | [] => [[]]
  | '\r' :: '\n' :: cs => [] :: splitLines cs
  | '\r' :: cs => [] :: splitLines cs
  | '\n' :: cs => [] :: splitLines cs
  | c :: cs =>
    match splitLines cs with
    | line :: rest => (c :: line) :: rest
    | [] => [[c]]

/-- A line with tabs as spaces, without spaces at the ends that meet a line break. -/
def trimLine (isFirst isLast : Bool) (line : List Char) : List Char :=
  let line := line.map fun c => if c == '\t' then ' ' else c
  let line := if isFirst then line else line.dropWhile (· == ' ')
  if isLast then line else dropEndWhile (· == ' ') line

/-- The lines of a text, trimmed. -/
def trimLines (isFirst : Bool) : List (List Char) → List (List Char)
  | [] => []
  | [line] => [trimLine isFirst true line]
  | line :: rest => trimLine isFirst false line :: trimLines false rest

/-- Whether a line holds more than blanks. -/
def isInked (line : List Char) : Bool := line.any fun c => c != ' ' && c != '\t'

/-- The lines joined: each but the last inked one, which is marked, is followed by a space, and
empty ones vanish. -/
def joinLines : List (List Char × Bool) → List Char
  | [] => []
  | ([], _) :: rest => joinLines rest
  | (line, isLastInked) :: rest =>
    line ++ (if isLastInked then [] else [' ']) ++ joinLines rest

/-- Marks the last inked line. -/
def markLast : List (List Char) → List Bool
  | [] => []
  | line :: rest => (isInked line && !rest.any isInked) :: markLast rest

/-- The text that a run of text between tags stands for. -/
def markupText (raw : String) : String :=
  let ls := splitLines raw.toList
  Entity.unescape (String.ofList (joinLines ((trimLines true ls).zip (markLast ls))))

end WidgetBridge.ComponentGrammar
