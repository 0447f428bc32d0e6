import WidgetBridge.Failure

/-!
# Trees of component source

A source is a tree of nodes. A node has a shape, the span of source that it takes up, and
its parts in order. Shapes tell apart what a reader of components looks at; all other nodes are
`Shape.other`, which keep their parts so that markup and declarations inside them can be found.
-/

namespace WidgetBridge.ComponentGrammar

/-- A stretch of source. -/
structure Span where
  text : String
  /-- Number of characters before it. -/
  offset : Nat
  place : Place
  /-- The line on which it ends. -/
  lastLine : Nat
  deriving Repr, DecidableEq, Inhabited

/-- Number of characters before the end of a span. -/
def Span.stop (s : Span) : Nat := s.offset + s.text.length

/-- How a function is written. -/
inductive FunctionForm where
  | declared
  | expression
  | arrow
  /-- A declared function that yields several values. -/
  | generator
  deriving Repr, DecidableEq, Inhabited

/-- The parameters of a function. -/
structure Params where
  /-- As written, with brackets if there are any. -/
  text : String
  /-- Whether a single name stands without brackets. -/
  bare : Bool
  /-- What each parameter binds, as written. -/
  names : List String
  deriving Repr, DecidableEq, Inhabited

/-- What a node is. The parts of a node are listed with its shape. -/
inductive Shape where
  | comment
  /-- A name that stands for a value or a key. -/
  | name
  /-- A quoted text. -/
  | string
  /-- A text in backticks; its parts are the interpolated expressions. -/
  | template
  | number
  /-- A truth value or null. -/
  | constant (value : Value)
  /-- The opposite of its part. -/
  | negative
  /-- An expression in round brackets. -/
  | paren
  | list
  | object
  /-- A key and its value. -/
  | pair
  /-- The called expression, then the arguments. -/
  | call (typeArgs : Option String)
  /-- What can be assigned to. -/
  | member
  /-- The left and the right side. -/
  | assign
  /-- The default values of parameters, then the body. -/
  | function (form : FunctionForm) (name : Option String) (params : Params)
  /-- Like a function, in a class or an object; the body may be missing. -/
  | method (name : String) (params : Params) (hasBody : Bool)
  /-- A field of a class, with its value if it has one. -/
  | field (name : String)
  /-- The members of a class. -/
  | classDef (declared : Bool) (name heritage : Option String)
  | block
  /-- A return statement. -/
  | returned
  /-- An expression that is a statement. -/
  | expression
  /-- Declarators. -/
  | declarators
  /-- A target, and a value if there is one. -/
  | declarator
  /-- A pattern for a list, with the plain names in it. -/
  | names (names : List String)
  /-- An export of a declaration or a value; others have no part. -/
  | exported (isDefault declares : Bool)
  /-- The opening tag, then the children. The name of the closing tag is given with its place, if
  there is one. -/
  | element (name : Option String) (closing : Option (String × Place))
  /-- The attributes of an opening tag. -/
  | tag
  /-- An attribute, with its value if it has one. -/
  | attr (name : String)
  /-- An expression in braces. -/
  | container
  /-- Text or a character reference between tags. -/
  | text
  | other
  deriving Inhabited

/-- A node of a source. -/
inductive SyntaxTree where
  | node (shape : Shape) (span : Span) (parts : List SyntaxTree)
  deriving Inhabited

namespace SyntaxTree

/-- What a node is. -/
def shape : SyntaxTree → Shape
  | .node s _ _ => s

/-- The span of a node. -/
def span : SyntaxTree → Span
  | .node _ s _ => s

/-- The parts of a node. -/
def parts : SyntaxTree → List SyntaxTree
  | .node _ _ ps => ps

/-- The source of a node. -/
def text (t : SyntaxTree) : String := t.span.text

/-- Whether a node is a comment. -/
def isComment : SyntaxTree → Bool
  | .node .comment _ _ => true
  | _ => false

/-- The nodes of a list that are no comments. -/
def withoutComments (ts : List SyntaxTree) : List SyntaxTree := ts.filter fun t => !t.isComment

mutual

/-- A node and all nodes inside it, outer ones first. -/
def walk : SyntaxTree → List SyntaxTree
  | .node shape span parts => .node shape span parts :: walkAll parts

/-- All nodes of a list and inside them. -/
def walkAll : List SyntaxTree → List SyntaxTree
  | [] => []
  | t :: ts => t.walk ++ walkAll ts

end

mutual

/-- What stands inside round brackets, comments apart. -/
def bare : SyntaxTree → SyntaxTree
  | .node .paren span parts =>
    match bareOf parts with
    | [inner] => inner
    | _ => .node .paren span parts
  | t => t

/-- The nodes of a list that are no comments, each without brackets. -/
def bareOf : List SyntaxTree → List SyntaxTree
  | [] => []
  | t :: ts => if t.isComment then bareOf ts else t.bare :: bareOf ts

end

/-- Whether a node is markup as it stands. -/
def isElement : SyntaxTree → Bool
  | .node (.element _ _) _ _ => true
  | _ => false

/-- Whether a node is markup, perhaps in brackets. -/
def isMarkup (t : SyntaxTree) : Bool := t.bare.isElement

/-- Whether there is markup in a node. -/
def hasMarkup (t : SyntaxTree) : Bool := t.walk.any isElement

/-! ## Markup -/

/-- A text without spaces. -/
def withoutSpaces (s : String) : String := Text.replaceChar ' ' "" s

/-- The tag of an element; a fragment has none. -/
def tagName? : SyntaxTree → Option String
  | .node (.element name _) _ _ => name.map withoutSpaces
  | _ => none

/-- The attributes of an element. -/
def attributes : SyntaxTree → List SyntaxTree
  | .node (.element _ _) _ (.node .tag _ attrs :: _) => attrs
  | _ => []

/-- The children of an element. -/
def children : SyntaxTree → List SyntaxTree
  | .node (.element _ _) _ (_ :: cs) => cs
  | _ => []

/-- The children of an element that are elements with a tag. -/
def childrenTagged (t : SyntaxTree) (tag : String) : List SyntaxTree :=
  t.children.filter fun c => c.tagName? == some tag

/-- Whether an element closes itself. -/
def isSelfClosing : SyntaxTree → Bool
  | .node (.element _ none) _ _ => true
  | _ => false

/-- The expression in a container. -/
def contained? (t : SyntaxTree) : Option SyntaxTree := (withoutComments t.parts).head?

/-! ## Functions -/

/-- The parameters of a function, and its body. -/
def function? : SyntaxTree → Option (FunctionForm × Params × SyntaxTree)
  | .node (.function form _ params) _ parts => parts.getLast?.map fun b => (form, params, b)
  | _ => none

/-- The parameters and the body of a method that has one. -/
def method? : SyntaxTree → Option (Params × SyntaxTree)
  | .node (.method _ params true) _ parts => parts.getLast?.map fun b => (params, b)
  | _ => none

/-- The name of a member of a class. -/
def memberName : SyntaxTree → String
  | .node (.method name _ _) _ _ => name
  | .node (.field name) _ _ => name
  | _ => ""

/-- The only declarator of a declaration: its target and its value. -/
def declarator? : SyntaxTree → Option (SyntaxTree × Option SyntaxTree)
  | .node .declarators _ parts =>
    match withoutComments parts with
    | [.node .declarator _ (target :: rest)] => some (target, rest.head?)
    | _ => none
  | _ => none

end SyntaxTree

end WidgetBridge.ComponentGrammar
