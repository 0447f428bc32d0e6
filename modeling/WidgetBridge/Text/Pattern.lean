import WidgetBridge.Text.Basic

/-!
# Text patterns

Patterns over texts with ordered choice: of two alternatives the first that lets the rest of the
pattern match wins, a greedy repetition tries more rounds before fewer and a lazy one fewer before
more. `Pattern.run` is the matcher in continuation form, by recursion on the pattern; repetitions
are bounded by the length of what is left to read.
-/

namespace WidgetBridge.Text

/-- A text pattern. -/
inductive Pattern where
  /-- Nothing. -/
  | empty
  /-- One character of a class. -/
  | char (accepts : Char → Bool)
  /-- One pattern after another. -/
  | seq (first second : Pattern)
  /-- The first alternative, or else the second. -/
  | alt (first second : Pattern)
  /-- At least `least` rounds, and at most `most` if that is given. -/
  | rep (greedy : Bool) (least : Nat) (most : Option Nat) (body : Pattern)
  /-- A numbered group, whose text is kept. -/
  | group (index : Nat) (body : Pattern)
  /-- The start of the text. -/
  | textStart
  /-- The end of the text, or the place before a line feed that ends it. -/
  | textEnd
  /-- The end of a line or of the text. -/
  | lineEnd
  /-- A place between a word character and something else. -/
  | wordBoundary
  /-- What follows matches, or does not match, the body. -/
  | ahead (wanted : Bool) (body : Pattern)
  /-- There is no character of a class right before this place. -/
  | notBehind (refused : Char → Bool)

namespace Pattern

instance : Append Pattern := ⟨seq⟩
instance : OrElse Pattern := ⟨fun a b => alt a (b ())⟩

/-- A character in front of a pattern. -/
def litChar (c : Char) : Pattern → Pattern
  | .empty => char (· == c)
  | p => seq (char (· == c)) p

/-- The characters of a text, one after another. -/
def lit (s : String) : Pattern := s.toList.foldr litChar .empty

instance : Coe String Pattern := ⟨lit⟩

/-- Any number of rounds, as many as possible. -/
def many (p : Pattern) : Pattern := rep true 0 none p
/-- At least one round, as many as possible. -/
def many1 (p : Pattern) : Pattern := rep true 1 none p
/-- At least one round, as few as possible. -/
def few1 (p : Pattern) : Pattern := rep false 1 none p
/-- Any number of rounds, as few as possible. -/
def few (p : Pattern) : Pattern := rep false 0 none p
/-- One round if possible. -/
def opt (p : Pattern) : Pattern := rep true 0 (some 1) p
/-- An exact number of rounds. -/
def exactly (n : Nat) (p : Pattern) : Pattern := rep true n (some n) p

/-- One blank. -/
def blank : Pattern := char isBlank
/-- Any number of blanks. -/
def blanks : Pattern := many blank
/-- At least one blank. -/
def blanks1 : Pattern := many1 blank
/-- One decimal digit. -/
def digit : Pattern := char isDecimal
/-- One hexadecimal digit. -/
def hex : Pattern := char isHexDigit
/-- One word character. -/
def word : Pattern := char isWord
/-- At least one word character. -/
def words1 : Pattern := many1 word
/-- Any character. -/
def any : Pattern := char fun _ => true
/-- Any character but a line feed. -/
def inLine : Pattern := char (· != '\n')
/-- One of the characters of a text. -/
def oneOf (s : String) : Pattern := char fun c => s.toList.contains c
/-- None of the characters of a text. -/
def noneOf (s : String) : Pattern := char fun c => !s.toList.contains c
/-- A character that a name may hold: a word character or `$`. -/
def nameRest : Pattern := char fun c => isWord c || c == '$'
/-- A name: an ASCII letter, `_` or `$`, then word characters and `$`. -/
def name : Pattern := char isNameStart ++ many nameRest
/-- A decimal number with an optional sign and optional places. -/
def number : Pattern := opt (lit "-") ++ many1 digit ++ opt (lit "." ++ many1 digit)

/-! ## Matching -/

/-- A place in a text, with the groups matched so far, the latest first. -/
structure Cursor where
  before : List Char
  rest : List Char
  position : Nat
  groups : List (Nat × List Char)

/-- The place after the next character, if that is of a class. -/
def Cursor.step? (accepts : Char → Bool) (c : Cursor) : Option Cursor :=
  match c.rest with
  | x :: xs => if accepts x then some ⟨x :: c.before, xs, c.position + 1, c.groups⟩ else none
  | [] => none

/-- What is done with the place where a pattern has matched. -/
abbrev Next := Cursor → Option Cursor

/-- A fixed number of rounds of a step. -/
def rounds (step : Cursor → Next → Option Cursor) : Nat → Cursor → Next → Option Cursor
  | 0, c, k => k c
  | n + 1, c, k => step c fun c' => rounds step n c' k

/-- Up to a number of further rounds; a round that reads nothing is not repeated. -/
def furtherRounds (greedy : Bool) (step : Cursor → Next → Option Cursor) :
    Nat → Cursor → Next → Option Cursor
  | 0, c, k => k c
  | n + 1, c, k =>
    let again := fun (_ : Unit) => step c fun c' =>
      if c'.position == c.position then none else furtherRounds greedy step n c' k
    if greedy then
      match again () with
      | some r => some r
      | none => k c
    else
      match k c with
      | some r => some r
      | none => again ()

/-- Matches a pattern at a place and goes on with `k`; the first way that succeeds wins. -/
def run : Pattern → Cursor → Next → Option Cursor
  | .empty, c, k => k c
  | .char accepts, c, k => (c.step? accepts).bind k
  | .seq p q, c, k => run p c fun c' => run q c' k
  | .alt p q, c, k =>
    match run p c k with
    | some r => some r
    | none => run q c k
  | .rep greedy least most p, c, k =>
    rounds (run p) least c fun c' =>
      furtherRounds greedy (run p) ((most.map (· - least)).getD (c'.rest.length + 1)) c' k
  | .group i p, c, k =>
    run p c fun c' =>
      k { c' with groups := (i, c.rest.take (c'.position - c.position)) :: c'.groups }
  | .textStart, c, k => if c.before.isEmpty then k c else none
  | .textEnd, c, k =>
    match c.rest with
    | [] | ['\n'] => k c
    | _ => none
  | .lineEnd, c, k =>
    match c.rest with
    | [] | '\n' :: _ => k c
    | _ => none
  | .wordBoundary, c, k =>
    let left := (c.before.head?.map isWord).getD false
    let right := (c.rest.head?.map isWord).getD false
    if left != right then k c else none
  | .ahead wanted p, c, k =>
    if (run p c some).isSome == wanted then k c else none
  | .notBehind refused, c, k =>
    match c.before with
    | x :: _ => if refused x then none else k c
    | [] => k c

/-- A match: the text before it, its own text, the text after it, and its groups. -/
structure Match where
  before : List Char
  text : List Char
  after : List Char
  groups : List (Nat × List Char)

/-- The text of a numbered group, if the group took part in the match. -/
def Match.group? (m : Match) (i : Nat) : Option String :=
  (m.groups.lookup i).map String.ofList

/-- The text of a numbered group, empty if the group took no part. -/
def Match.get (m : Match) (i : Nat) : String := (m.group? i).getD ""

/-- A match at one place of a text. -/
def matchAt? (p : Pattern) (before : List Char) (position : Nat) (rest : List Char) :
    Option Match :=
  (run p ⟨before, rest, position, []⟩ some).map fun c =>
    { before := before.reverse
      text := rest.take (c.position - position)
      after := c.rest
      groups := c.groups }

/-- A match at the start of a text. -/
def matchStart? (p : Pattern) (s : String) : Option Match := matchAt? p [] 0 s.toList

/-- A match of the whole text. -/
def matchWhole? (p : Pattern) (s : String) : Option Match :=
  (run p ⟨[], s.toList, 0, []⟩ fun c => if c.rest.isEmpty then some c else none).map fun c =>
    { before := [], text := s.toList, after := [], groups := c.groups }

/-- Whether the whole text matches. -/
def matchesWhole (p : Pattern) (s : String) : Bool := (matchWhole? p s).isSome

/-- Whether a match starts the text. -/
def matchesStart (p : Pattern) (s : String) : Bool := (matchStart? p s).isSome

/-- The leftmost match from a place on. -/
def searchFrom? (p : Pattern) (before : List Char) (position : Nat) :
    List Char → Option Match
  | [] => matchAt? p before position []
  | c :: cs =>
    match matchAt? p before position (c :: cs) with
    | some m => some m
    | none => searchFrom? p (c :: before) (position + 1) cs

/-- The leftmost match in a text. -/
def search? (p : Pattern) (s : String) : Option Match := searchFrom? p [] 0 s.toList

/-- All matches from a place on that do not overlap, from left to right. -/
def allFrom (p : Pattern) : Nat → List Char → Nat → List Char → List Match
  | 0, _, _, _ => []
  | fuel + 1, before, position, rest =>
    match searchFrom? p before position rest with
    | none => []
    | some m =>
      if m.text.isEmpty then
        match m.after with
        | [] => [m]
        | c :: cs => m :: allFrom p fuel (c :: m.before.reverse) (m.before.length + 1) cs
      else
        m :: allFrom p fuel (m.text.reverse ++ m.before.reverse)
          (m.before.length + m.text.length) m.after

/-- All matches in a text that do not overlap, from left to right. -/
def findAll (p : Pattern) (s : String) : List Match :=
  allFrom p (s.length + 1) [] 0 s.toList

/-- Replaces every match by what a function makes of it. -/
def replaceAll (p : Pattern) (new : Match → String) (s : String) : String :=
  go 0 s.toList (findAll p s)
where
  go (position : Nat) (rest : List Char) : List Match → String
    | [] => String.ofList rest
    | m :: ms =>
      String.ofList (rest.take (m.before.length - position)) ++ new m ++
        go (m.before.length + m.text.length) m.after ms

/-- The parts of a text between the matches. -/
def splitBy (p : Pattern) (s : String) : List String :=
  go 0 s.toList (findAll p s)
where
  go (position : Nat) (rest : List Char) : List Match → List String
    | [] => [String.ofList rest]
    | m :: ms =>
      String.ofList (rest.take (m.before.length - position)) ::
        go (m.before.length + m.text.length) m.after ms

end Pattern

end WidgetBridge.Text
