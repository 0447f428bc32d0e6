import WidgetBridge.Number.Numeral

/-!
# Plain data

`Value` is the data that a literal can hold: nothing, truth values, integers of any size, doubles,
texts, lists, and maps from texts in the order in which they were written. `Value.quoted` is the
form in which messages quote a value.
-/

namespace WidgetBridge

open WidgetBridge.Text WidgetBridge.Number

/-- Plain data. The entries of a map keep their order. -/
inductive Value where
  | null
  | bool (b : Bool)
  | int (i : Int)
  | float (x : Float)
  | str (s : String)
  | list (items : List Value)
  | map (entries : List (String × Value))
  deriving Inhabited

/-- An association list read as a map: entries in order, one entry a key. -/
abbrev Assoc (α : Type) := List (String × α)

namespace Assoc

variable {α : Type}

/-- The value of a key. -/
def get? (m : Assoc α) (key : String) : Option α := m.lookup key

/-- Whether a key has a value. -/
def has (m : Assoc α) (key : String) : Bool := (m.lookup key).isSome

/-- Gives a key a value: in its old place if it has one, else at the end. -/
def put (m : Assoc α) (key : String) (v : α) : Assoc α :=
  if m.has key then m.map fun e => if e.1 == key then (key, v) else e else m ++ [(key, v)]

/-- Gives a key a value unless it has one. -/
def putNew (m : Assoc α) (key : String) (v : α) : Assoc α :=
  if m.has key then m else m ++ [(key, v)]

/-- Removes a key. -/
def erase (m : Assoc α) (key : String) : Assoc α := m.filter fun e => e.1 != key

/-- The map of a list of pairs: each key in its first place with its last value. -/
def ofPairs (pairs : List (String × α)) : Assoc α := pairs.foldl (fun m e => put m e.1 e.2) []

/-- The keys in order. -/
def keys (m : Assoc α) : List String := m.map (·.1)

end Assoc

namespace Value

/-! ## Quoting in messages -/

private def hexWidth (width n : Nat) : List Char :=
  let ds := Nat.toDigits 16 n
  List.replicate (width - ds.length) '0' ++ ds

/-- One character of a quoted text. -/
def quoteChar (quote c : Char) : List Char :=
  if c == quote || c == '\\' then ['\\', c]
  else if c == '\n' then ['\\', 'n']
  else if c == '\r' then ['\\', 'r']
  else if c == '\t' then ['\\', 't']
  else if isPrintable c then [c]
  else if c.toNat < 0x100 then '\\' :: 'x' :: hexWidth 2 c.toNat
  else if c.toNat < 0x10000 then '\\' :: 'u' :: hexWidth 4 c.toNat
  else '\\' :: 'U' :: hexWidth 8 c.toNat

/-- A text in quotes: single ones, or double ones if it holds single quotes only. -/
def quote (s : String) : String :=
  let cs := s.toList
  let mark := if cs.contains '\'' && !cs.contains '"' then '"' else '\''
  String.ofList (mark :: cs.flatMap (quoteChar mark) ++ [mark])

mutual

/-- A value as messages quote it. -/
def quoted : Value → String
  | .null => "None"
  | .bool true => "True"
  | .bool false => "False"
  | .int i => showInt i
  | .float x => showFloat x
  | .str s => quote s
  | .list items => "[" ++ join ", " (quotedItems items) ++ "]"
  | .map entries => "\x7b" ++ join ", " (quotedEntries entries) ++ "\x7d"

/-- The members of a list, each as messages quote it. -/
def quotedItems : List Value → List String
  | [] => []
  | v :: vs => v.quoted :: quotedItems vs

/-- The entries of a map, each as messages quote it. -/
def quotedEntries : List (String × Value) → List String
  | [] => []
  | (k, v) :: es => (quote k ++ ": " ++ v.quoted) :: quotedEntries es

end

/-- A value as running text: a text stands for itself. -/
def text : Value → String
  | .str s => s
  | v => v.quoted

/-! ## Tests and views -/

/-- An integer or a double. -/
def isNumber : Value → Bool
  | .int _ | .float _ => true
  | _ => false

/-- Whether a value counts as present: not nothing, false, zero or empty. -/
def truthy : Value → Bool
  | .null => false
  | .bool b => b
  | .int i => i != 0
  | .float x => x != 0.0
  | .str s => !s.isEmpty
  | .list items => !items.isEmpty
  | .map entries => !entries.isEmpty

/-- A number as a double. -/
def toFloat? : Value → Option Float
  | .int i => some (Float.ofInt i)
  | .float x => some x
  | .bool b => some (if b then 1.0 else 0.0)
  | _ => none

/-- The text of a text value. -/
def str? : Value → Option String
  | .str s => some s
  | _ => none

/-- The entries of a map value. -/
def map? : Value → Option (Assoc Value)
  | .map es => some es
  | _ => none

/-- The members of a list value. -/
def list? : Value → Option (List Value)
  | .list vs => some vs
  | _ => none

/-- The value of a key, if the value is a map that has it. -/
def get? (v : Value) (key : String) : Option Value :=
  match v with
  | .map es => es.lookup key
  | _ => none

/-- The exact fraction of a finite number: numerator and denominator, in lowest terms. -/
def fraction? : Value → Option (Int × Nat)
  | .bool b => some (if b then 1 else 0, 1)
  | .int i => some (i, 1)
  | .float x => (Binary.ofFloat? x).map fun b =>
      let g := Nat.gcd b.num b.den
      let n : Int := (b.num / g : Nat)
      (if b.negative then -n else n, b.den / g)
  | _ => none

mutual

/-- Equality of values: numbers compare by value, maps without regard to order. -/
def same : Value → Value → Bool
  | .null, .null => true
  | .str a, .str b => a == b
  | .list as, .list bs => sameItems as bs
  | .map as, .map bs => as.length == bs.length && sameEntries as bs
  | a, b =>
    match fraction? a, fraction? b with
    | some x, some y => x == y
    | _, _ =>
      match a, b with
      | .float x, .float y => x == y
      | _, _ => false

/-- Memberwise equality. -/
def sameItems : List Value → List Value → Bool
  | [], [] => true
  | a :: as, b :: bs => same a b && sameItems as bs
  | _, _ => false

/-- Every entry of the first list has an equal one in the second. -/
def sameEntries : List (String × Value) → List (String × Value) → Bool
  | [], _ => true
  | (k, v) :: es, bs =>
    (match bs.lookup k with
      | some w => same v w
      | none => false) && sameEntries es bs

end

end Value

end WidgetBridge
