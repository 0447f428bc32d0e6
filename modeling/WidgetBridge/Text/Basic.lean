import WidgetBridge.Text.CharClass

/-!
# Texts as lists of characters

Cutting, searching and joining of texts. Every operation is defined on `List Char` by recursion
on the list and lifted to `String`; positions count code points.
-/

namespace WidgetBridge.Text

/-! ## Blanks at the ends -/

/-- Drops leading blanks. -/
def trimStartChars (cs : List Char) : List Char := cs.dropWhile isBlank

/-- Drops trailing characters of a class. -/
def dropEndWhile (p : Char → Bool) (cs : List Char) : List Char :=
  (cs.reverse.dropWhile p).reverse

/-- Drops leading and trailing blanks. -/
def trimChars (cs : List Char) : List Char := dropEndWhile isBlank (trimStartChars cs)

/-- Drops leading and trailing blanks. -/
def trim (s : String) : String := String.ofList (trimChars s.toList)

/-- Drops leading blanks. -/
def trimStart (s : String) : String := String.ofList (trimStartChars s.toList)

/-- Drops trailing blanks. -/
def trimEnd (s : String) : String := String.ofList (dropEndWhile isBlank s.toList)

/-- Drops every trailing occurrence of a character. -/
def trimEndChar (c : Char) (s : String) : String := String.ofList (dropEndWhile (· == c) s.toList)

/-- Drops every leading and trailing occurrence of a character. -/
def trimChar (c : Char) (s : String) : String :=
  String.ofList (dropEndWhile (· == c) (s.toList.dropWhile (· == c)))

/-! ## Searching -/

/-- What follows `pat` at the start of `cs`, if it stands there. -/
def dropHead? : (pat cs : List Char) → Option (List Char)
  | [], cs => some cs
  | _ :: _, [] => none
  | p :: ps, c :: cs => if p == c then dropHead? ps cs else none

/-- Whether a text starts with another. -/
def hasHead (s pat : String) : Bool := (dropHead? pat.toList s.toList).isSome

/-- Whether a text ends with another. -/
def hasTail (s pat : String) : Bool :=
  (dropHead? pat.toList.reverse s.toList.reverse).isSome

/-- The text without a given start, or the text itself if it starts otherwise. -/
def dropHead (s pat : String) : String :=
  match dropHead? pat.toList s.toList with
  | some rest => String.ofList rest
  | none => s

/-- The parts before and after the first occurrence of `pat`. -/
def cutFirst? (pat : List Char) : List Char → Option (List Char × List Char)
  | [] => if pat.isEmpty then some ([], []) else none
  | c :: cs =>
    match dropHead? pat (c :: cs) with
    | some rest => some ([], rest)
    | none => (cutFirst? pat cs).map fun r => (c :: r.1, r.2)

/-- The parts before and after the first occurrence of `pat`. -/
def cutAt? (s pat : String) : Option (String × String) :=
  (cutFirst? pat.toList s.toList).map fun r => (String.ofList r.1, String.ofList r.2)

/-- The parts before and after the last occurrence of `pat`. -/
def cutLast? (s pat : String) : Option (String × String) :=
  (cutFirst? pat.toList.reverse s.toList.reverse).map fun r =>
    (String.ofList r.2.reverse, String.ofList r.1.reverse)

/-- The part before the first occurrence of `pat`, or the whole text. -/
def before (s pat : String) : String :=
  match cutAt? s pat with
  | some r => r.1
  | none => s

/-- Whether a text occurs in another. -/
def occursIn (pat s : String) : Bool := (cutAt? s pat).isSome

/-! ## Splitting and joining -/

/-- The parts between the occurrences of a character; there is always at least one part. -/
def splitChars (sep : Char) : List Char → List (List Char)
  | [] => [[]]
  | c :: cs =>
    if c == sep then [] :: splitChars sep cs
    else match splitChars sep cs with
      | part :: parts => (c :: part) :: parts
      | [] => [[c]]

/-- The parts between the occurrences of a character. -/
def splitAt (s : String) (sep : Char) : List String :=
  (splitChars sep s.toList).map String.ofList

/-- The lines of a text, without their line feeds. -/
def lines (s : String) : List String := splitAt s '\n'

/-- Joins texts with a separator between them. -/
def join (sep : String) : List String → String
  | [] => ""
  | [s] => s
  | s :: ss => s ++ sep ++ join sep ss

/-- Replaces every occurrence of a character by a text. -/
def replaceChar (c : Char) (new : String) (s : String) : String :=
  String.ofList (s.toList.flatMap fun d => if d == c then new.toList else [d])

/-- How often a character occurs. -/
def count (c : Char) (s : String) : Nat := s.toList.countP (· == c)

/-- The first `n` characters. -/
def take (s : String) (n : Nat) : String := String.ofList (s.toList.take n)

/-- All but the first `n` characters. -/
def drop (s : String) (n : Nat) : String := String.ofList (s.toList.drop n)

/-- The characters from `first` up to `last`, exclusive. -/
def slice (s : String) (first last : Nat) : String :=
  String.ofList ((s.toList.drop first).take (last - first))

/-- A text of `n` spaces. -/
def spaces (n : Nat) : String := String.ofList (List.replicate n ' ')

/-- Puts a text in front of every line that is not empty. -/
def indentLines (lead s : String) : String :=
  join "\n" ((lines s).map fun l => if l.isEmpty then l else lead ++ l)

end WidgetBridge.Text
