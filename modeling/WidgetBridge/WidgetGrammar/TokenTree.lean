import WidgetBridge.WidgetGrammar.Lexeme

/-!
# Token trees

The tokens of a source are its lexemes without the comments, which are kept with the token that
follows them. Brackets make the tokens a forest: `TokenTree.group` is a pair of brackets with what
stands between them. All structure above tokens is read off this forest.
-/

namespace WidgetBridge.WidgetGrammar

open WidgetBridge.Text

/-- A lexeme that is no comment, with its index among those and the comments before it. -/
structure Token where
  lexeme : Lexeme
  index : Nat
  comments : List Lexeme
  deriving Repr, DecidableEq, Inhabited

namespace Token

/-- The text of a token. -/
def text (t : Token) : String := t.lexeme.text

/-- Where a token starts. -/
def place (t : Token) : Place := t.lexeme.place

/-- The source between the token before and this one. -/
def gap (t : Token) : String :=
  t.comments.foldr (fun c acc => c.blank ++ c.text ++ acc) t.lexeme.blank

/-- Whether a token is a given punctuator. -/
def isPunct (t : Token) (text : String) : Bool := t.lexeme.kind == .punct && t.text == text

/-- Whether a token is a name. -/
def isIdent (t : Token) : Bool := t.lexeme.kind == .ident

/-- Whether a token is a given name. -/
def isName (t : Token) (text : String) : Bool := t.isIdent && t.text == text

end Token

/-- A token, or a pair of brackets with what stands between them. -/
inductive TokenTree where
  | leaf (t : Token)
  | group (opener : Token) (inner : List TokenTree) (closer : Token)
  deriving Inhabited

namespace TokenTree

/-- The first token. -/
def first : TokenTree → Token
  | .leaf t => t
  | .group o _ _ => o

/-- The last token. -/
def last : TokenTree → Token
  | .leaf t => t
  | .group _ _ c => c

/-- Whether a tree is a given punctuator, or a group that opens with it. -/
def isPunct (t : TokenTree) (text : String) : Bool := t.first.isPunct text

/-- Whether a tree is a name. -/
def isIdent : TokenTree → Bool
  | .leaf t => t.isIdent
  | .group _ _ _ => false

/-- Whether a tree is a given name. -/
def isName : TokenTree → String → Bool
  | .leaf t, text => t.isName text
  | .group _ _ _, _ => false

mutual

/-- The tokens in order. -/
def tokens : TokenTree → List Token
  | .leaf t => [t]
  | .group o inner c => o :: tokensOf inner ++ [c]

/-- The tokens of a forest in order. -/
def tokensOf : List TokenTree → List Token
  | [] => []
  | t :: ts => t.tokens ++ tokensOf ts

end

/-- The source of a run of tokens, from the first to the last. -/
def textOfTokens : List Token → String
  | [] => ""
  | t :: ts => ts.foldl (fun acc u => acc ++ u.gap ++ u.text) t.text

/-- The source of a forest, from its first to its last token. -/
def textOf (ts : List TokenTree) : String := textOfTokens (tokensOf ts)

/-! ## From lexemes to a forest -/

/-- Gives each token its index and its comments. The second part is the comments after the last
token. -/
def attach (index : Nat) (pending : List Lexeme) : List Lexeme → List Token × List Lexeme
  | [] => ([], pending.reverse)
  | l :: ls =>
    if l.kind == .comment then attach index (l :: pending) ls
    else
      let (ts, tail) := attach (index + 1) [] ls
      (⟨l, index, pending.reverse⟩ :: ts, tail)

/-- The trees read so far on each open level, the last tree first. -/
structure Levels where
  here : List TokenTree := []
  open_ : List (Token × List TokenTree) := []

/-- One more token on the open levels. A closing bracket ends the innermost level. -/
def Levels.push (l : Levels) (t : Token) : Levels :=
  if t.lexeme.kind == .punct && (closerOf t.text).isSome then
    { here := [], open_ := (t, l.here) :: l.open_ }
  else if t.lexeme.kind == .punct && (openerOf t.text).isSome then
    match l.open_ with
    | (o, outer) :: rest => { here := .group o l.here.reverse t :: outer, open_ := rest }
    | [] => { l with here := .leaf t :: l.here }
  else { l with here := .leaf t :: l.here }

/-- The forest of the open levels; a bracket that is still open counts as a plain token. -/
def Levels.close (l : Levels) : List TokenTree :=
  (l.open_.foldl (fun inner level => inner ++ .leaf level.1 :: level.2) l.here).reverse

/-- The forest of a run of tokens. -/
def ofTokens (ts : List Token) : List TokenTree := (ts.foldl Levels.push {}).close

/-! ## Flat reading -/

/-- The next token and the forest after it; the inside of a group comes next. -/
def next? : List TokenTree → Option (Token × List TokenTree)
  | [] => none
  | .leaf t :: ts => some (t, ts)
  | .group o inner c :: ts => some (o, inner ++ .leaf c :: ts)

mutual

/-- Number of tokens. -/
def size : TokenTree → Nat
  | .leaf _ => 1
  | .group _ inner _ => sizeOf' inner + 2

/-- Number of tokens of a forest. -/
def sizeOf' : List TokenTree → Nat
  | [] => 0
  | t :: ts => t.size + sizeOf' ts

end

/-- The forests that remain at each token, in order: the first starts with the first token, and
each further one starts one token later. -/
def tails : (fuel : Nat) → List TokenTree → List (List TokenTree)
  | 0, _ => []
  | fuel + 1, ts =>
    match next? ts with
    | none => []
    | some (_, rest) => ts :: tails fuel rest

/-- The forests that remain at each token of a forest. -/
def positions (ts : List TokenTree) : List (List TokenTree) := tails (sizeOf' ts) ts

end TokenTree

/-! ## Ranges -/

/-- A run of trees, and the token that follows it in the source. Where an empty run ends the source,
the token before it takes that part. -/
structure Range where
  trees : List TokenTree
  follow : Option Token
  deriving Inhabited

namespace Range

/-- The source of a range. -/
def text (r : Range) : String := TokenTree.textOf r.trees

/-- The tokens of a range. -/
def tokens (r : Range) : List Token := TokenTree.tokensOf r.trees

/-- Whether nothing is in a range. -/
def isEmpty (r : Range) : Bool := r.trees.isEmpty

/-- The first token of a range. -/
def first? (r : Range) : Option Token := r.trees.head?.map TokenTree.first

/-- The last token of a range. -/
def last? (r : Range) : Option Token := r.trees.getLast?.map TokenTree.last

/-- Index of the first token; of the token after it if the range is empty. -/
def start (r : Range) : Nat :=
  match r.first? with
  | some t => t.index
  | none => (r.follow.map (·.index)).getD 0

/-- Index after the last token. -/
def stop (r : Range) : Nat :=
  match r.last? with
  | some t => t.index + 1
  | none => r.start

/-- Where a range starts. -/
def place (r : Range) : Place :=
  match r.first? with
  | some t => t.place
  | none => (r.follow.map Token.place).getD ⟨1, 1⟩

/-- Splits a forest at a separator outside brackets, dropping empty parts. `parts` grows from the
trees collected for the part at hand, the last one first. -/
def splitFrom (separator : String) (follow : Option Token) (part : List TokenTree) :
    List TokenTree → List Range
  | [] => if part.isEmpty then [] else [⟨part.reverse, follow⟩]
  | .leaf t :: ts =>
    if t.isPunct separator then
      let rest := splitFrom separator follow [] ts
      if part.isEmpty then rest else ⟨part.reverse, some t⟩ :: rest
    else splitFrom separator follow (.leaf t :: part) ts
  | .group o inner c :: ts => splitFrom separator follow (.group o inner c :: part) ts

/-- The parts of a range between separators outside brackets. -/
def splitTop (r : Range) (separator : String) : List Range :=
  splitFrom separator r.follow [] r.trees

/-- The parts before and after the first tree that is or opens with a punctuator. -/
def cutTop? (text : String) : List TokenTree → Option (List TokenTree × TokenTree × List TokenTree)
  | [] => none
  | t :: ts =>
    if t.isPunct text then some ([], t, ts)
    else (cutTop? text ts).map fun r => (t :: r.1, r.2)

/-- Whether a punctuator stands outside brackets. -/
def hasTop (text : String) (ts : List TokenTree) : Bool := (cutTop? text ts).isSome

/-- The trees without a final semicolon. -/
def dropSemicolon (ts : List TokenTree) : List TokenTree :=
  match ts.getLast? with
  | some (.leaf t) => if t.isPunct ";" then ts.dropLast else ts
  | _ => ts

/-- A range without a final semicolon. -/
def withoutSemicolon (r : Range) : Range :=
  match r.trees.getLast? with
  | some (.leaf t) => if t.isPunct ";" then ⟨r.trees.dropLast, some t⟩ else r
  | _ => r

end Range

/-- A source with its forest. -/
structure Source where
  tokens : List Token
  trees : List TokenTree
  /-- The comments after the last token. -/
  tail : List Lexeme

namespace Source

/-- Reads a source. -/
def read (source : String) : Attempt Source := do
  let (tokens, tail) := TokenTree.attach 0 [] (← Lexeme.scan source)
  return { tokens, trees := TokenTree.ofTokens tokens, tail }

/-- All of a source. -/
def all (s : Source) : Range := ⟨s.trees, none⟩

end Source

/-! ## Comments -/

/-- Comments on adjacent lines, as one piece of source: its text, the column where it starts, and
the number of lines between it and what follows. -/
structure CommentBlock where
  text : String
  column : Nat
  gap : Int
  deriving Repr, DecidableEq, Inhabited

/-- The line on which a lexeme ends. -/
def Lexeme.lastLine (l : Lexeme) : Nat := l.place.line + count '\n' l.text

/-- Runs of comments on adjacent lines. `run` is the one at hand, its last comment first. -/
def commentRuns (run : List Lexeme) : List Lexeme → List (List Lexeme)
  | [] => if run.isEmpty then [] else [run.reverse]
  | c :: cs =>
    match run with
    | [] => commentRuns [c] cs
    | last :: _ =>
      if c.place.line ≤ last.lastLine + 1 then commentRuns (c :: run) cs
      else run.reverse :: commentRuns [c] cs

/-- The block of a run of comments, before a token on a line. -/
def blockOf (nextLine : Option Nat) : List Lexeme → CommentBlock
  | [] => ⟨"", 1, 1⟩
  | c :: cs =>
    { text := cs.foldl (fun acc d => acc ++ d.blank ++ d.text) c.text
      column := c.place.column
      gap := match nextLine with
        | some line => (line : Int) - (((c :: cs).getLast?.getD c).lastLine : Int) - 1
        | none => 1 }

/-- The blocks of the comments before a token. -/
def Token.commentBlocks (t : Token) : List CommentBlock :=
  (commentRuns [] t.comments).map (blockOf (some t.place.line))

/-- The blocks of the comments after the last token. -/
def Source.tailBlocks (s : Source) : List CommentBlock := (commentRuns [] s.tail).map (blockOf none)

end WidgetBridge.WidgetGrammar
