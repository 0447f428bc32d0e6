import WidgetBridge.Mapping.Entry

/-!
# Mapping tables

A table holds one entry for each neutral name. Component tags are found under the neutral name and
its aliases, widget constructors under their own name before any further name.
-/

namespace WidgetBridge.Mapping

open WidgetBridge.Text

/-- A mapping table: its entries in order, and the names of the files they came from. -/
structure Table where
  entries : List Entry
  sources : List String := []
  deriving Inhabited

namespace Table

/-- Puts an entry in the place of the entry of the same neutral name, or at the end. -/
def insertEntry (es : List Entry) (e : Entry) : List Entry :=
  if es.any fun x => x.source == e.source then
    es.map fun x => if x.source == e.source then e else x
  else es ++ [e]

/-- The table of a list of entries: later entries replace earlier ones of the same name. -/
def ofEntries (es : List Entry) (sources : List String) : Table :=
  ⟨es.foldl insertEntry [], sources⟩

/-- The number of entries. -/
def size (t : Table) : Nat := t.entries.length

/-- The entry of a neutral name. -/
def get? (t : Table) (name : String) : Option Entry := t.entries.find? fun e => e.source == name

/-- Whether a neutral name has an entry. -/
def has (t : Table) (name : String) : Bool := (t.get? name).isSome

/-! ## Indexes -/

/-- Lists entries under names; what stands under a name is replaced. -/
def listOver (names : Entry → List String) (index : Assoc Entry) (es : List Entry) : Assoc Entry :=
  es.foldl (fun index e => (names e).foldl (fun index name => index.put name e) index) index

/-- Lists entries under names; what stands under a name stays. -/
def listUnder (names : Entry → List String) (index : Assoc Entry) (es : List Entry) : Assoc Entry :=
  es.foldl (fun index e => (names e).foldl (fun index name => index.putNew name e) index) index

/-- The entries by component tag. -/
def tagIndex (es : List Entry) : Assoc Entry := listOver Entry.tags [] es

/-- The entries by constructor name; a constructor of its own comes before a further one. -/
def constructorIndex (es : List Entry) : Assoc Entry :=
  let further := listUnder (fun e => Assoc.keys e.targetAliases) [] es
  listOver (fun e => [e.target]) further es

/-! ## Lookup -/

/-- The entry of a component tag. -/
def forward? (t : Table) (tag : String) : Option Entry := (tagIndex t.entries).get? tag

/-- The entry of a constructor name. -/
def constructor? (t : Table) (name : String) : Option Entry :=
  (constructorIndex t.entries).get? name

/-- The entry of a constructor call: by the full dotted name, or else by what stands before the
first dot. -/
def backward? (t : Table) (name : String) : Option Entry :=
  match t.constructor? name with
  | some e => some e
  | none =>
    match cutAt? name "." with
    | some (head, _) => t.constructor? head
    | none => none

end Table

end WidgetBridge.Mapping
