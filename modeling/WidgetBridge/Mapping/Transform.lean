import WidgetBridge.PropValue
import WidgetBridge.Text.Pattern

/-!
# Transforms of prop values

A transform carries a prop value between its component form and its widget form. Forward, a
literal becomes a literal or the text of a constructor call; backward, constant constructor calls
become literals again and everything else is kept as it is. Expressions pass forward unchanged,
except that an image source is taken out of its `uri` object.
-/

namespace WidgetBridge.Mapping

open WidgetBridge.Text WidgetBridge.Number

/-- The way of a transform: towards the widget tree, or back. -/
inductive Direction where
  | forward
  | backward
  deriving Repr, DecidableEq

/-- The direction of a name. -/
def Direction.ofName? : String → Option Direction
  | "forward" => some .forward
  | "backward" => some .backward
  | _ => none

/-- The name of a direction. -/
def Direction.name : Direction → String
  | .forward => "forward"
  | .backward => "backward"

/-- The transforms. -/
inductive Transform where
  | identity
  | event
  | color
  | edgeInsets
  | borderRadius
  | enum
  | imageSource
  deriving Repr, DecidableEq, Inhabited

/-- The transform of a name. -/
def Transform.ofName? : String → Option Transform
  | "identity" => some .identity
  | "event" => some .event
  | "color" => some .color
  | "edge_insets" => some .edgeInsets
  | "border_radius" => some .borderRadius
  | "enum" => some .enum
  | "image_source" => some .imageSource
  | _ => none

/-- The name of a transform. -/
def Transform.name : Transform → String
  | .identity => "identity"
  | .event => "event"
  | .color => "color"
  | .edgeInsets => "edge_insets"
  | .borderRadius => "border_radius"
  | .enum => "enum"
  | .imageSource => "image_source"

/-- The number that source text writes; without point and exponent it is an integer. -/
def parseNumber (s : String) : Attempt Value :=
  if Pattern.matchesWhole (Pattern.opt "-" ++ Pattern.many1 Pattern.digit) s then
    match readInt? s with
    | some i => .ok (.int i)
    | none => .error .badText
  else
    match readFloat? s with
    | some x => .ok (.float x)
    | none => .error .badText

/-- A text without surrounding blanks and without a leading `const`. -/
def stripConst (s : String) : String :=
  let t := trim s
  if hasHead t "const " then trim (dropHead t "const ") else t

/-! ## Colours -/

/-- The colours that have names on both sides. -/
def namedColors : Assoc String :=
  [("white", "Colors.white"), ("black", "Colors.black"), ("red", "Colors.red"),
    ("green", "Colors.green"), ("blue", "Colors.blue"), ("yellow", "Colors.yellow"),
    ("orange", "Colors.orange"), ("purple", "Colors.purple"), ("pink", "Colors.pink"),
    ("grey", "Colors.grey"), ("gray", "Colors.grey"), ("teal", "Colors.teal"),
    ("cyan", "Colors.cyan"), ("amber", "Colors.amber"), ("indigo", "Colors.indigo"),
    ("brown", "Colors.brown"), ("transparent", "Colors.transparent")]

/-- The first component name of a widget colour. -/
def colorName? (dart : String) : Option String :=
  (namedColors.find? fun e => e.2 == dart).map (·.1)

namespace Form

open Pattern

/-- A number between blanks. -/
def spaced (i : Nat) : Pattern := blanks ++ group i number ++ blanks

/-- A comma. -/
def comma : Pattern := lit ","

/-- `#` and three, six or eight hexadecimal digits. -/
def hexColor : Pattern :=
  textStart ++ lit "#" ++ group 1 (exactly 3 hex <|> exactly 6 hex <|> exactly 8 hex) ++ textEnd

/-- `rgb` or `rgba` with three or four numbers. -/
def rgba : Pattern :=
  textStart ++ lit "rgb" ++ opt "a" ++ lit "(" ++ spaced 1 ++ comma ++ spaced 2 ++ comma ++
    spaced 3 ++ opt (comma ++ spaced 4) ++ lit ")" ++ textEnd

/-- A colour of eight hexadecimal digits. -/
def dartColor : Pattern :=
  textStart ++ lit "Color(" ++ blanks ++ lit "0x" ++ group 1 (exactly 8 hex) ++ blanks ++
    lit ")" ++ textEnd

/-- A colour of four numbers. -/
def dartRgbo : Pattern :=
  textStart ++ lit "Color.fromRGBO(" ++ spaced 1 ++ comma ++ spaced 2 ++ comma ++ spaced 3 ++
    comma ++ spaced 4 ++ lit ")" ++ textEnd

/-- One inset for all sides. -/
def insetsAll : Pattern := textStart ++ lit "EdgeInsets.all(" ++ spaced 1 ++ lit ")" ++ textEnd

/-- One inset a side. -/
def insetsSides : Pattern :=
  textStart ++ lit "EdgeInsets.fromLTRB(" ++ spaced 1 ++ comma ++ spaced 2 ++ comma ++
    spaced 3 ++ comma ++ spaced 4 ++ lit ")" ++ textEnd

/-- One inset an axis. -/
def insetsSymmetric : Pattern :=
  textStart ++ lit "EdgeInsets.symmetric(" ++ group 1 (many any) ++ lit ")" ++ textEnd

/-- A named argument whose value is a number. -/
def namedNumber : Pattern :=
  group 1 words1 ++ blanks ++ lit ":" ++ blanks ++ group 2 number

/-- A corner radius, written in either of two ways. -/
def radius : Pattern :=
  textStart ++ lit "BorderRadius." ++
    ((lit "circular(" ++ spaced 1 ++ lit ")") <|>
      (lit "all(" ++ blanks ++ lit "Radius.circular(" ++ spaced 2 ++ lit ")" ++ blanks ++
        lit ")")) ++ textEnd

/-- An object whose only key is `uri`. -/
def uriObject : Pattern :=
  textStart ++ lit "\x7b" ++ blanks ++ lit "uri" ++ blanks ++ lit ":" ++ blanks ++
    group 1 (few1 any) ++ blanks ++ opt "," ++ blanks ++ lit "\x7d" ++ textEnd

end Form

/-- A text with every character twice. -/
def doubled (s : String) : String := String.ofList (s.toList.flatMap fun c => [c, c])

/-- A component colour as widget source. -/
def colorForward (css : String) : Attempt String :=
  let lowered := lower css
  match namedColors.get? lowered with
  | some c => .ok c
  | none =>
    match Form.hexColor.matchStart? css with
    | some m =>
      let digits := upper (m.get 1)
      let digits := if digits.length == 3 then doubled digits else digits
      let argb := if digits.length == 6 then "FF" ++ digits else drop digits 6 ++ take digits 6
      .ok ("Color(0x" ++ argb ++ ")")
    | none =>
      match Form.rgba.matchStart? lowered with
      | some m =>
        .ok ("Color.fromRGBO(" ++ m.get 1 ++ ", " ++ m.get 2 ++ ", " ++ m.get 3 ++ ", " ++
          (m.group? 4).getD "1.0" ++ ")")
      | none => .error (.transform ("unrecognised color " ++ Value.quote css))

/-- A constant widget colour as component text. -/
def colorBackward? (dart : String) : Option String :=
  match colorName? dart with
  | some name => some name
  | none =>
    match Form.dartColor.matchStart? dart with
    | some m =>
      let argb := lower (m.get 1)
      let alpha := take argb 2
      let rgb := drop argb 2
      some (if alpha == "ff" then "#" ++ rgb else "#" ++ rgb ++ alpha)
    | none =>
      (Form.dartRgbo.matchStart? dart).map fun m =>
        "rgba(" ++ m.get 1 ++ ", " ++ m.get 2 ++ ", " ++ m.get 3 ++ ", " ++ m.get 4 ++ ")"

/-- Colours: texts on the component side, constructor calls on the widget side. -/
def applyColor (direction : Direction) : PropValue → Attempt PropValue
  | .expr s =>
    match direction with
    | .forward => .ok (.expr s)
    | .backward =>
      match colorBackward? (stripConst s) with
      | some css => .ok (.literal (.str css))
      | none => .ok (.expr s)
  | .lit kind v =>
    match direction with
    | .backward => .ok (.lit kind v)
    | .forward =>
      if kind != .string then
        .error (.transform ("color expects a string, got " ++ kind.name))
      else match v with
        | .str s => do return .expr (← colorForward (trim s))
        | _ => .error .unsupported

/-! ## Insets and radii -/

/-- The members that a loop over a value meets: items, keys or characters. -/
def members? : Value → Option (List Value)
  | .list vs => some vs
  | .map es => some (es.map fun e => .str e.1)
  | .str s => some (s.toList.map fun c => .str (String.singleton c))
  | _ => none

/-- Insets as widget source: one number, or one, two or four numbers in a list. -/
def insetsForward (kind : LiteralKind) (v : Value) : Attempt String :=
  let refuse : Attempt String :=
    .error (.transform ("cannot express " ++ v.quoted ++ " as edge insets"))
  if v.isNumber then .ok ("EdgeInsets.all(" ++ v.text ++ ")")
  else if kind != .array then refuse
  else match members? v with
    | none => .error .wrongKind
    | some items =>
      if !items.all Value.isNumber then refuse
      else match items with
        | [a] => .ok ("EdgeInsets.all(" ++ a.text ++ ")")
        | [a, b] =>
          .ok ("EdgeInsets.symmetric(vertical: " ++ a.text ++ ", horizontal: " ++ b.text ++ ")")
        | [top, right, bottom, left] =>
          .ok ("EdgeInsets.fromLTRB(" ++ left.text ++ ", " ++ top.text ++ ", " ++ right.text ++
            ", " ++ bottom.text ++ ")")
        | _ => refuse

/-- The named numbers of an argument text, the last of each name. -/
def namedNumbers (args : String) : Attempt (Assoc Value) :=
  (Form.namedNumber.findAll args).foldlM
    (fun (acc : Assoc Value) m => do return acc.put (m.get 1) (← parseNumber (m.get 2))) []

/-- Constant insets as a literal; other source stays an expression. -/
def insetsBackward (source : String) : Attempt PropValue :=
  let t := stripConst source
  if t == "EdgeInsets.zero" then .ok (.literal (.int 0))
  else match Form.insetsAll.matchStart? t with
    | some m => do return .literal (← parseNumber (m.get 1))
    | none =>
      match Form.insetsSides.matchStart? t with
      | some m => do
        let left ← parseNumber (m.get 1)
        let top ← parseNumber (m.get 2)
        let right ← parseNumber (m.get 3)
        let bottom ← parseNumber (m.get 4)
        return .literal (.list [top, right, bottom, left])
      | none =>
        match Form.insetsSymmetric.matchStart? t with
        | some m => do
          let named ← namedNumbers (m.get 1)
          return .literal (.list [(named.get? "vertical").getD (.int 0),
            (named.get? "horizontal").getD (.int 0)])
        | none => .ok (.expr source)

/-- Insets: numbers or lists of numbers, and constructor calls. -/
def applyInsets : Direction → PropValue → Attempt PropValue
  | .forward, .expr s => .ok (.expr s)
  | .forward, .lit kind v => do return .expr (← insetsForward kind v)
  | .backward, .lit kind v => .ok (.lit kind v)
  | .backward, .expr s => insetsBackward s

/-- Corner radii: numbers, and constructor calls. -/
def applyRadius : Direction → PropValue → Attempt PropValue
  | .forward, .expr s => .ok (.expr s)
  | .forward, .lit _ v =>
    if v.isNumber then .ok (.expr ("BorderRadius.circular(" ++ v.text ++ ")"))
    else .error (.transform ("border radius expects a number, got " ++ v.quoted))
  | .backward, .lit kind v => .ok (.lit kind v)
  | .backward, .expr s =>
    match Form.radius.matchStart? (stripConst s) with
    | some m => do return .literal (← parseNumber ((m.group? 1).getD (m.get 2)))
    | none => .ok (.expr s)

/-! ## Image sources -/

/-- Takes the uri out of an object. -/
def uriOf (v : Value) : Attempt PropValue :=
  let refuse : Attempt PropValue :=
    .error (.transform ("image source expects a uri, got " ++ v.quoted))
  match v with
  | .map es =>
    match Assoc.get? es "uri" with
    | some u => .ok (.literal u)
    | none => refuse
  | .list items => if items.any fun i => i.same (.str "uri") then .error .wrongKind else refuse
  | .str s => if occursIn "uri" s then .error .wrongKind else refuse
  | _ => .error .wrongKind

/-- Image sources: an object with a uri on the component side, the bare uri on the other. -/
def applyImage : Direction → PropValue → Attempt PropValue
  | .forward, .expr s =>
    match Form.uriObject.matchStart? (trim s) with
    | some m => .ok (.expr (m.get 1))
    | none => .ok (.expr s)
  | .forward, .lit .string v => .ok (.lit .string v)
  | .forward, .lit .object v => uriOf v
  | .forward, .lit _ v =>
    .error (.transform ("image source expects a uri, got " ++ v.quoted))
  | .backward, .expr s => .ok (.expr ("\x7b uri: " ++ s ++ " \x7d"))
  | .backward, .lit _ v => .ok (.literal (.map [("uri", v)]))

/-! ## Keywords -/

/-- The key under which a value table lists a value. -/
def keywordKey : Value → String
  | .bool true => "true"
  | .bool false => "false"
  | v => v.text

/-- The value of a key of a value table. -/
def keywordValue : String → Value
  | "true" => .bool true
  | "false" => .bool false
  | s => .str s

/-- Keywords: the keys of a value table, and the texts it lists for them. -/
def applyKeyword (values : Assoc String) : Direction → PropValue → Attempt PropValue
  | .forward, .expr s => .ok (.expr s)
  | .forward, .lit _ v =>
    match values.get? (keywordKey v) with
    | some dart => .ok (.expr dart)
    | none => .error (.transform ("no keyword mapping for " ++ v.quoted))
  | .backward, .lit kind v => .ok (.lit kind v)
  | .backward, .expr s =>
    match values.reverse.find? fun e => e.2 == stripConst s with
    | some e => .ok (.literal (keywordValue e.1))
    | none => .ok (.expr s)

/-- Runs a transform. -/
def Transform.apply (t : Transform) (direction : Direction) (values : Assoc String)
    (v : PropValue) : Attempt PropValue :=
  match t with
  | .identity | .event => .ok v
  | .color => applyColor direction v
  | .edgeInsets => applyInsets direction v
  | .borderRadius => applyRadius direction v
  | .enum => applyKeyword values direction v
  | .imageSource => applyImage direction v

/-- Runs the transform of a name. -/
def applyTransform (name : String) (v : PropValue) (direction : Direction)
    (values : Assoc String) : Attempt PropValue :=
  match Transform.ofName? name with
  | some t => t.apply direction values v
  | none => .error (.transform ("unknown transform " ++ Value.quote name))

end WidgetBridge.Mapping
