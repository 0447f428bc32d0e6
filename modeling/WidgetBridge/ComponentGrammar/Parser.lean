import WidgetBridge.ComponentGrammar.Lexical
import WidgetBridge.ComponentGrammar.SyntaxTree

/-!
# Readers of component source

A reader takes a piece off the source or refuses, and an alternative starts again from where the
first one started. Blanks and comments are passed over before a piece, never after it, so that the
span of a node ends with its last character.
-/

namespace WidgetBridge.ComponentGrammar

open WidgetBridge.Text

/-- A place in a source, with what is left to read. -/
structure Cursor where
  rest : List Char
  /-- How many characters are left. -/
  left : Nat
  /-- How many characters were read. -/
  offset : Nat := 0
  place : Place := ⟨1, 1⟩
  deriving Inhabited

/-- The place after a character. -/
def Place.after (p : Place) (c : Char) : Place :=
  if c == '\n' then ⟨p.line + 1, 1⟩ else ⟨p.line, p.column + 1⟩

/-- The cursor some characters later. -/
def Cursor.skip (c : Cursor) (n : Nat) : Cursor :=
  let taken := c.rest.take n
  { rest := c.rest.drop n, left := c.left - taken.length, offset := c.offset + taken.length
    place := taken.foldl Place.after c.place }

/-- The span between two cursors. -/
def Cursor.span (start stop : Cursor) : Span :=
  { text := String.ofList (start.rest.take (stop.offset - start.offset)), offset := start.offset
    place := start.place, lastLine := stop.place.line }

/-- A reader. -/
abbrev Parser := StateT Cursor Option

namespace Parser

variable {α β : Type}

/-- Refuses unless a condition holds. -/
def require (b : Bool) : Parser Unit := if b then pure () else failure

/-- Repeats a reader at most so many times. -/
def repeatUpTo (p : Parser α) : Nat → Parser (List α)
  | 0 => pure []
  | n + 1 => (do
      let a ← p
      return a :: (← repeatUpTo p n)) <|> pure []

/-- Repeats a reader, each round of which takes something, as long as it succeeds. -/
def many (p : Parser α) : Parser (List α) := do repeatUpTo p (← get).left

/-- What a reader gives, if it does not refuse. -/
def maybe (p : Parser α) : Parser (Option α) := (some <$> p) <|> pure none

/-- Whether a reader would succeed here. -/
def ahead (p : Parser α) : Parser Bool := fun c => some ((p c).isSome, c)

/-! ## Blanks and comments -/

/-- Passes over blanks. -/
def blanks : Parser Unit := modify fun c => c.skip (Lexical.run Lexical.isSpace c.rest)

/-- Takes off a piece of a lexical class right here. -/
def lexeme (length? : List Char → Option Nat) : Parser Span := fun c =>
  (length? c.rest).map fun n => (c.span (c.skip n), c.skip n)

/-- Passes over blanks and comments, and gives the comments. -/
def comments : Parser (List SyntaxTree) := do
  let cs ← many do
    blanks
    return .node .comment (← lexeme Lexical.commentLength?) []
  blanks
  return cs

/-- Passes over blanks and comments. -/
def trivia : Parser Unit := do let _ ← comments

/-- Whether a line ends before the next piece. -/
def breakAhead : Parser Bool := fun c =>
  match trivia c with
  | some (_, d) => some ((c.rest.take (d.offset - c.offset)).any Lexical.endsLine, c)
  | none => some (false, c)

/-! ## Pieces -/

/-- Where the next piece starts. -/
def start : Parser Cursor := do trivia; get

/-- A node from a place up to here. -/
def finish (start : Cursor) (shape : Shape) (parts : List SyntaxTree) : Parser SyntaxTree := do
  return .node shape (start.span (← get)) parts

/-- The source from a place up to here. -/
def textFrom (start : Cursor) : Parser String := do return (start.span (← get)).text

/-- What comes next, blanks and comments apart. -/
def peek : Parser (List Char) := fun c => (trivia c).map fun r => (r.2.rest, c)

/-- Whether a mark comes next. -/
def sees (mark : String) : Parser Bool := do return (dropHead? mark.toList (← peek)).isSome

/-- Takes off a mark right here. -/
def exact (mark : String) : Parser Unit := fun c =>
  (dropHead? mark.toList c.rest).map fun _ => ((), c.skip mark.length)

/-- Takes off a mark. -/
def mark (s : String) : Parser Unit := do trivia; exact s

/-- Takes off a piece of a lexical class. -/
def token (length? : List Char → Option Nat) : Parser Span := do trivia; lexeme length?

/-- Takes off a name or a keyword. -/
def word : Parser String := do return (← token Lexical.nameLength?).text

/-- Takes off a given keyword. -/
def keyword (k : String) : Parser Unit := do require ((← word) == k)

/-- Takes off one of some keywords. -/
def keywords (ks : List String) : Parser String := do
  let w ← word
  require (ks.contains w)
  return w

/-- The next name or keyword, without taking it off. -/
def nextWord : Parser String := fun c =>
  match word c with
  | some (w, _) => some (w, c)
  | none => some ("", c)

/-- Whether a keyword comes next. -/
def seesWord (k : String) : Parser Bool := do return (← nextWord) == k

/-- A node of one token. -/
def leaf (shape : Shape) (length? : List Char → Option Nat) : Parser SyntaxTree := do
  return .node shape (← token length?) []

/-- Items between two marks, with commas between them; places may stay empty. Comments are kept as
items. -/
def items (opener closer : String) (item : Parser SyntaxTree) : Parser (List SyntaxTree) := do
  mark opener
  let first ← maybe (commented item)
  let rest ← many do
    mark ","
    return (← maybe (commented item)).getD []
  let last ← comments
  exact closer
  return first.getD [] ++ rest.flatten ++ last
where
  commented (item : Parser SyntaxTree) : Parser (List SyntaxTree) := do
    let cs ← comments
    return cs ++ [← item]

/-! ## Ends of statements -/

/-- Whether the text after a line break goes on with the statement before it. -/
def continuesStatement : List Char → Bool
  | '+' :: cs => cs.head? != some '+'
  | '-' :: cs => cs.head? != some '-'
  | '!' :: cs => cs.head? == some '='
  | 'i' :: 'n' :: cs =>
    let word := fun (cs : List Char) => (cs.head?.map Lexical.isNamePart).getD false
    match dropHead? "stanceof".toList cs with
    | some rest => !word rest
    | none => !word cs
  | c :: _ => ("`,.;*%><=?^|&/:([".toList).contains c
  | [] => false

/-- The end of a statement: a semicolon, or a place where one may be left out. -/
def semicolon : Parser Unit := mark ";" <|> do
  let next ← peek
  let broken ← breakAhead
  require (next.isEmpty || next.head? == some '}' || (broken && !continuesStatement next))

end Parser

/-- The readers of nested pieces. Every production is written over such a record, in which the
nested pieces may be one level less deep. -/
structure Grammar where
  expression : Parser SyntaxTree
  statement : Parser SyntaxTree
  markup : Parser SyntaxTree
  pattern : Parser SyntaxTree
  type : Parser Unit

/-- Readers that refuse everything. -/
def Grammar.empty : Grammar := ⟨failure, failure, failure, failure, failure⟩

end WidgetBridge.ComponentGrammar
