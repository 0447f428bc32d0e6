import WidgetBridge.Failure

/-!
# Lexemes of widget source

A source text is a sequence of lexemes with blanks between them. `Lexeme.scan` cuts a text into
its lexemes; brackets have to balance. The first fault in reading order is the one reported.

Each scanner looks at the text from a place on and says how many characters it takes, so that the
text of a lexeme is always a piece of the source.
-/

namespace WidgetBridge.WidgetGrammar

open WidgetBridge.Text WidgetBridge.Number

/-- A part of a text literal: plain text, or the source of an interpolated expression. -/
inductive Part where
  | text (s : String)
  | hole (source : String)
  deriving Repr, DecidableEq, Inhabited

/-- The kinds of lexemes. -/
inductive LexemeKind where
  | ident
  | number
  | string
  | comment
  | punct
  deriving Repr, DecidableEq, Inhabited

/-- The name of a kind. -/
def LexemeKind.name : LexemeKind → String
  | .ident => "ident"
  | .number => "number"
  | .string => "string"
  | .comment => "comment"
  | .punct => "punct"

/-- A lexeme with the blanks before it and the place where it starts. -/
structure Lexeme where
  kind : LexemeKind
  text : String
  blank : String
  offset : Nat
  place : Place
  parts : List Part := []
  deriving Repr, DecidableEq, Inhabited

/-- A place in a text, with the number of characters before it. -/
structure Spot where
  offset : Nat := 0
  place : Place := ⟨1, 1⟩
  deriving Repr, DecidableEq, Inhabited

/-- The place after one character. -/
def Spot.step (s : Spot) (c : Char) : Spot :=
  { offset := s.offset + 1
    place := if c == '\n' then ⟨s.place.line + 1, 1⟩ else ⟨s.place.line, s.place.column + 1⟩ }

/-- The place after some characters. -/
def Spot.advance (s : Spot) (cs : List Char) : Spot := cs.foldl Spot.step s

/-- A fault inside a lexeme: what is wrong, and how far into the lexeme. -/
inductive Fault where
  | at (distance : Nat) (message : String)
  | other (cause : Failure)

/-! ## Comments -/

/-- The length of a block comment after its start; inner comments nest. -/
def blockComment : (depth taken : Nat) → List Char → Option Nat
  | depth, taken, '/' :: '*' :: cs => blockComment (depth + 1) (taken + 2) cs
  | 0, taken, '*' :: '/' :: _ => some (taken + 2)
  | depth + 1, taken, '*' :: '/' :: cs => blockComment depth (taken + 2) cs
  | depth, taken, _ :: cs => blockComment depth (taken + 1) cs
  | _, _, [] => none

/-! ## Text literals -/

/-- The character of a code point; none beyond the last one. -/
def codePoint (n : Int) : Except Fault Char :=
  if n > 2147483647 ∨ n < -2147483648 then .error (.other .tooLarge)
  else if n < 0 ∨ n > 0x10FFFF then .error (.other .badText)
  else .ok (Char.ofNat n.toNat)

/-- The character that hexadecimal digits name. -/
def hexChar (cs : List Char) : Except Fault Char :=
  match readHex? (String.ofList cs) with
  | some n => codePoint n
  | none => .error (.other .badText)

/-- The character that stands for itself or for a control character after a backslash. -/
def simpleEscape : Char → Char
  | 'n' => '\n'
  | 't' => '\t'
  | 'r' => '\r'
  | 'b' => '\x08'
  | 'f' => '\x0c'
  | 'v' => '\x0b'
  | '0' => '\x00'
  | c => c

/-- What an escape stands for, and its length with the backslash. `cs` follows the backslash, which
is `taken` characters into the lexeme. -/
def escapeAt (taken : Nat) : List Char → Except Fault (Char × Nat)
  | [] => .error (.at taken "unterminated string literal")
  | 'u' :: '{' :: cs =>
    let digits := cs.takeWhile (· != '}')
    if digits.length == cs.length then .error (.at taken "malformed unicode escape")
    else do return (← hexChar digits, digits.length + 4)
  | 'u' :: cs => do return (← hexChar (cs.take 4), 6)
  | 'x' :: cs => do return (← hexChar (cs.take 2), 4)
  | c :: _ => .ok (simpleEscape c, 2)

/-- The parts of a literal with the text collected so far as the last one. -/
def flushParts (buffer : List Char) (parts : List Part) : List Part :=
  if buffer.isEmpty then parts else .text (String.ofList buffer.reverse) :: parts

/-- A quote mark and whether it is tripled. -/
structure Quotes where
  mark : Char
  triple : Bool

/-- The closing mark. -/
def Quotes.delimiter (q : Quotes) : List Char :=
  if q.triple then [q.mark, q.mark, q.mark] else [q.mark]

/-- The marks that open a literal. -/
def quotesAt (mark : Char) (cs : List Char) : Quotes :=
  ⟨mark, (dropHead? [mark, mark] cs).isSome⟩

mutual

/-- Reads a literal after its opening mark to its end. `start` and `taken` count from the start of
the lexeme; the results are the end and the parts, the last part first. -/
def literalBody : (fuel : Nat) → (raw : Bool) → Quotes → (start taken : Nat) →
    (buffer : List Char) → List Part → List Char → Except Fault (Nat × List Part)
  | 0, _, _, start, _, _, _, _ => .error (.at start "unterminated string literal")
  | fuel + 1, raw, q, start, taken, buffer, parts, cs =>
    match cs with
    | [] => .error (.at start "unterminated string literal")
    | c :: rest =>
      if (dropHead? q.delimiter cs).isSome then
        .ok (taken + q.delimiter.length, flushParts buffer parts)
      else if c == '\n' && !q.triple then .error (.at start "unterminated string literal")
      else if c == '\\' && !raw then do
        let (d, n) ← escapeAt taken rest
        literalBody fuel raw q start (taken + n) (d :: buffer) parts (cs.drop n)
      else if c == '$' && !raw then
        match rest with
        | '{' :: inner => do
          let stop ← holeEnd fuel 1 (taken + 2) inner
          let source := trimChars (inner.take (stop - (taken + 2) - 1))
          literalBody fuel raw q start stop []
            (.hole (String.ofList source) :: flushParts buffer parts) (cs.drop (stop - taken))
        | d :: _ =>
          if isLetter d || d == '_' then
            let name := rest.takeWhile fun e => isLetter e || isDigit e || e == '_'
            literalBody fuel raw q start (taken + 1 + name.length) []
              (.hole (String.ofList name) :: flushParts buffer parts) (rest.drop name.length)
          else literalBody fuel raw q start (taken + 1) (c :: buffer) parts rest
        | [] => literalBody fuel raw q start (taken + 1) (c :: buffer) parts rest
      else literalBody fuel raw q start (taken + 1) (c :: buffer) parts rest

/-- The end of an interpolated expression, after its closing brace. -/
def holeEnd : (fuel depth taken : Nat) → List Char → Except Fault Nat
  | 0, _, taken, _ => .error (.at taken "unterminated string interpolation")
  | _ + 1, _, taken, [] => .error (.at taken "unterminated string interpolation")
  | fuel + 1, depth, taken, c :: cs =>
    if c == '\'' || c == '"' then do
      let q := quotesAt c cs
      let n := q.delimiter.length
      let (stop, _) ← literalBody fuel false q taken (taken + n) [] [] ((c :: cs).drop n)
      holeEnd fuel depth stop ((c :: cs).drop (stop - taken))
    else if c == '{' then holeEnd fuel (depth + 1) (taken + 1) cs
    else if c == '}' then
      if depth ≤ 1 then .ok (taken + 1) else holeEnd fuel (depth - 1) (taken + 1) cs
    else holeEnd fuel depth (taken + 1) cs

end

/-- A literal from its opening mark on, `lead` characters into the lexeme. -/
def literalAt (raw : Bool) (lead : Nat) (mark : Char) (cs : List Char) :
    Except Fault (Nat × List Part) := do
  let q := quotesAt mark cs
  let n := q.delimiter.length
  let (stop, parts) ← literalBody (2 * cs.length + 2) raw q 0 (lead + n) [] [] (cs.drop (n - 1))
  return (stop, parts.reverse)

/-! ## Numbers and punctuation -/

/-- The length of an exponent, if one stands here. -/
def exponentLength : List Char → Nat
  | e :: cs =>
    if e == 'e' || e == 'E' then
      let (sign, body) := match cs with
        | '+' :: ds => (1, ds)
        | '-' :: ds => (1, ds)
        | ds => (0, ds)
      let digits := (body.takeWhile isDecimal).length
      if digits == 0 then 0 else 1 + sign + digits
    else 0
  | [] => 0

/-- The length of a decimal number, if one stands here. -/
def decimalLength (cs : List Char) : Option Nat :=
  let whole := (cs.takeWhile isDecimal).length
  if whole == 0 then none
  else
    let places := match cs.drop whole with
      | '.' :: ds =>
        let n := (ds.takeWhile isDecimal).length
        if n == 0 then 0 else n + 1
      | _ => 0
    some (whole + places + exponentLength (cs.drop (whole + places)))

/-- The length of a number, if one stands here. -/
def numberLength (cs : List Char) : Option Nat :=
  match cs with
  | '0' :: x :: ds =>
    let n := (ds.takeWhile isHexDigit).length
    if (x == 'x' || x == 'X') && n != 0 then some (n + 2) else decimalLength cs
  | _ => decimalLength cs

/-- The punctuators of more than one character, the longer ones first. -/
def longPunctuators : List (List Char) :=
  ["...", "??=", "~/=", "<<=", "?..", "=>", "==", "!=", "<=", ">=", "&&", "||", "??", "?.", "..",
    "++", "--", "+=", "-=", "*=", "/=", "%=", "&=", "|=", "^=", "<<", "~/"].map String.toList

/-- The length of the punctuator that stands here. -/
def punctuatorLength (cs : List Char) : Nat :=
  ((longPunctuators.find? fun p => (dropHead? p cs).isSome).map List.length).getD 1

/-! ## Lexemes -/

/-- What stands at a place: its kind, its length less one, and its parts. -/
structure Cut where
  kind : LexemeKind
  more : Nat
  parts : List Part := []

/-- The comment that starts with `c`, if one does. -/
def commentAt? (c : Char) (cs : List Char) : Option (Except Fault Cut) :=
  match c, cs with
  | '/', '/' :: _ => some (.ok ⟨.comment, (cs.takeWhile (· != '\n')).length, []⟩)
  | '/', '*' :: rest => some (match blockComment 0 2 rest with
      | some n => .ok ⟨.comment, n - 1, []⟩
      | none => .error (.at 0 "unterminated block comment"))
  | _, _ => none

/-- The quote mark of a raw literal that starts with `c`, and what follows the mark. -/
def rawMark? (c : Char) (cs : List Char) : Option (Char × List Char) :=
  match cs with
  | q :: rest =>
    if (c == 'r' || c == 'R') && (q == '\'' || q == '"') then some (q, rest) else none
  | [] => none

/-- Cuts off a literal. -/
def cutLiteral (raw : Bool) (lead : Nat) (mark : Char) (cs : List Char) : Except Fault Cut := do
  let (n, parts) ← literalAt raw lead mark cs
  return ⟨.string, n - 1, parts⟩

/-- Cuts off the lexeme that starts with `c`. -/
def cutLexeme (c : Char) (cs : List Char) : Except Fault Cut :=
  match commentAt? c cs with
  | some result => result
  | none =>
    match rawMark? c cs with
    | some (q, rest) => cutLiteral true 1 q rest
    | none =>
      if c == '\'' || c == '"' then cutLiteral false 0 c cs
      else if isNameStart c then .ok ⟨.ident, (cs.takeWhile isNameChar).length, []⟩
      else if isAnyDigit c then
        match numberLength (c :: cs) with
        | some n => .ok ⟨.number, n - 1, []⟩
        | none => .error (.other .unsupported)
      else .ok ⟨.punct, punctuatorLength (c :: cs) - 1, []⟩

/-- The closing bracket of an opening one. -/
def closerOf : String → Option String
  | "(" => some ")"
  | "[" => some "]"
  | "\x7b" => some "\x7d"
  | _ => none

/-- The opening bracket of a closing one. -/
def openerOf : String → Option String
  | ")" => some "("
  | "]" => some "["
  | "\x7d" => some "\x7b"
  | _ => none

/-- The open brackets after a lexeme, the innermost first. -/
def nextOpen (stack : List (String × Place)) (kind : LexemeKind) (text : String)
    (place : Place) : Attempt (List (String × Place)) :=
  if kind != .punct then .ok stack
  else if (closerOf text).isSome then .ok ((text, place) :: stack)
  else match openerOf text with
    | none => .ok stack
    | some opener =>
      let refuse : Attempt (List (String × Place)) :=
        .error (.malformed ("unbalanced '" ++ text ++ "'") place)
      match stack with
      | (top, _) :: rest => if top == opener then .ok rest else refuse
      | [] => refuse

/-- Cuts the text from a place on into lexemes. -/
def scanFrom (stack : List (String × Place)) (blank : List Char) (spot : Spot) :
    List Char → Attempt (List Lexeme)
  | [] =>
    match stack with
    | [] => .ok []
    | (text, place) :: _ => .error (.malformed ("unclosed '" ++ text ++ "'") place)
  | c :: cs =>
    if isBlank c then scanFrom stack (c :: blank) (spot.step c) cs
    else match cutLexeme c cs with
      | .error (.at distance message) =>
        .error (.malformed message (spot.advance ((c :: cs).take distance)).place)
      | .error (.other cause) => .error cause
      | .ok cut => do
        let chars := c :: cs.take cut.more
        let text := String.ofList chars
        let stack ← nextOpen stack cut.kind text spot.place
        let rest ← scanFrom stack [] (spot.advance chars) (cs.drop cut.more)
        return { kind := cut.kind, text, blank := String.ofList blank.reverse
                 offset := spot.offset, place := spot.place, parts := cut.parts } :: rest
  termination_by cs => cs.length
  decreasing_by
    · simp
    · simp only [List.length_cons, List.length_drop]; omega

/-- Cuts a source text into its lexemes, comments included. -/
def Lexeme.scan (source : String) : Attempt (List Lexeme) := scanFrom [] [] {} source.toList

end WidgetBridge.WidgetGrammar
