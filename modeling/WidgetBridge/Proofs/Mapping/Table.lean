import Mathlib.Data.List.Nodup
import Mathlib.Data.List.Pairwise
import WidgetBridge.Mapping.Bundled
import WidgetBridge.Proofs.Assoc
import WidgetBridge.Proofs.Text.Layout

/-!
# Lookup in mapping tables

A table keeps one entry for each neutral name: `keyed` sees the entries as a map from these names,
and `insertEntry` as `put`.  The indexes are filled by going over the entries, and `get?_listOver`
and `get?_listUnder` say what stands under a name in the end: the last entry of the name where
entries replace one another, the first one where they do not.  So `forward?` and `backward?` can be
told from the list of entries alone (`ofEntries_lookup`).
-/

namespace WidgetBridge.Mapping.Table

open WidgetBridge.Text

/-! ## Entries -/

/-- The entries of a list under their neutral names. -/
def keyed (es : List Entry) : Assoc Entry := es.map fun e => (e.source, e)

theorem keys_keyed (es : List Entry) : Assoc.keys (keyed es) = es.map Entry.source := by
  rw [Assoc.keys, keyed, List.map_map]
  rfl

theorem lookup_keyed (es : List Entry) (name : String) :
    (keyed es).lookup name = es.find? fun e => e.source == name := by
  induction es with
  | nil => rfl
  | cons e es ih =>
    rw [keyed, List.map_cons, List.lookup_cons, List.find?_cons, BEq.comm, ← keyed, ih]

theorem keyed_insertEntry (es : List Entry) (e : Entry) :
    keyed (insertEntry es e) = (keyed es).put e.source e := by
  have hhas : (keyed es).has e.source = es.any fun x => x.source == e.source := by
    rw [Assoc.has, lookup_keyed, List.isSome_find?]
  unfold insertEntry Assoc.put
  rw [hhas]
  split_ifs
  · rw [keyed, keyed, List.map_map, List.map_map]
    refine List.map_congr_left fun x _ => ?_
    simp only [Function.comp_apply]
    split_ifs <;> rfl
  · simp [keyed]

theorem keyed_ofEntries (es : List Entry) (sources : List String) :
    keyed (ofEntries es sources).entries = Assoc.ofPairs (keyed es) := by
  change keyed (es.foldl insertEntry []) = _
  induction es using List.reverseRecOn with
  | nil => rfl
  | append_singleton es e ih =>
    have hsplit : keyed (es ++ [e]) = keyed es ++ [(e.source, e)] := by simp [keyed]
    rw [List.foldl_append, List.foldl_cons, List.foldl_nil, keyed_insertEntry, ih, hsplit,
      Assoc.ofPairs_concat]

theorem map_source_ofEntries (es : List Entry) (sources : List String) :
    (ofEntries es sources).entries.map Entry.source = (es.map Entry.source).eraseDups := by
  rw [← keys_keyed, keyed_ofEntries, Assoc.keys_ofPairs, keys_keyed]

theorem getLast?_of_mem_ofEntries {es : List Entry} {sources : List String} {e : Entry}
    (he : e ∈ (ofEntries es sources).entries) :
    (es.filter fun x => x.source == e.source).getLast? = some e := by
  have hmem : (e.source, e) ∈ Assoc.ofPairs (keyed es) := by
    rw [← keyed_ofEntries es sources]
    exact List.mem_map.2 ⟨e, he, rfl⟩
  have hlast : (keyed es).reverse.lookup e.source = some e := by
    rw [← Assoc.get?_ofPairs]
    exact Assoc.lookup_of_mem (Assoc.nodup_keys_ofPairs (keyed es)) hmem
  have hreverse : (keyed es).reverse = keyed es.reverse := List.map_reverse.symm
  rwa [hreverse, lookup_keyed, ← List.getLast?_filter] at hlast

/-! ## Indexes -/

section Index

variable (names : Entry → List String) (index : Assoc Entry) (es : List Entry) (name : String)

theorem get?_listOver :
    (listOver names index es).get? name =
      ((es.filter fun e => (names e).contains name).getLast?).or (index.get? name) := by
  have hround (e : Entry) (ns : List String) (m : Assoc Entry) :
      (ns.foldl (fun m n => m.put n e) m).get? name = if ns.contains name then some e
        else m.get? name := by
    induction ns generalizing m with
    | nil => rfl
    | cons n ns ih =>
      rw [List.foldl_cons, ih, Assoc.get?_put, List.contains_cons]
      by_cases h : name = n
      · simp [h]
      · simp [h]
  rw [List.getLast?_filter]
  induction es generalizing index with
  | nil => rfl
  | cons e es ih =>
    rw [listOver, List.foldl_cons, ← listOver, ih, hround, List.reverse_cons, List.find?_append,
      Option.or_assoc, List.find?_singleton]
    split_ifs <;> rfl

theorem get?_listUnder :
    (listUnder names index es).get? name =
      (index.get? name).or (es.filter fun e => (names e).contains name).head? := by
  have hround (e : Entry) (ns : List String) (m : Assoc Entry) :
      (ns.foldl (fun m n => m.putNew n e) m).get? name =
        (m.get? name).or (if ns.contains name then some e else none) := by
    induction ns generalizing m with
    | nil => exact (Option.or_none).symm
    | cons n ns ih =>
      rw [List.foldl_cons, ih, Assoc.get?_putNew, List.contains_cons, Option.or_assoc]
      by_cases h : name = n
      · simp [h]
      · simp [h]
  rw [List.head?_filter]
  induction es generalizing index with
  | nil => exact (Option.or_none).symm
  | cons e es ih =>
    rw [listUnder, List.foldl_cons, ← listUnder, ih, hround, Option.or_assoc, List.find?_cons]
    cases (names e).contains name <;> rfl

end Index

/-! ## Lookup -/

variable {t : Table}

/-- The entry that a constructor stands for: the last one whose target it is, or else the first one
that lists it as a further constructor. -/
def built? (t : Table) (name : String) : Option Entry :=
  ((t.entries.filter fun e => e.target == name).getLast?).or
    (t.entries.filter fun e => (Assoc.keys e.targetAliases).contains name).head?

theorem forward?_eq (t : Table) (tag : String) :
    t.forward? tag = (t.entries.filter fun e => e.tags.contains tag).getLast? := by
  rw [forward?, tagIndex, get?_listOver]
  exact Option.or_none

theorem constructor?_eq (t : Table) (name : String) : t.constructor? name = t.built? name := by
  rw [constructor?, constructorIndex, get?_listOver, get?_listUnder, built?]
  congr 2
  refine List.filter_congr fun e _ => ?_
  rw [List.contains_cons, List.contains_nil, Bool.or_false, BEq.comm]

/-- A name without a dot is looked up as it is. -/
theorem backward?_of_not_mem {name : String} (h : '.' ∉ name.toList) :
    t.backward? name = t.built? name := by
  have hcut : cutAt? name "." = none := cutAt?_eq_none rfl h
  rw [backward?, constructor?_eq, hcut]
  cases t.built? name <;> rfl

/-- A dotted name is looked up as a whole first, and then by what stands before its first dot. -/
theorem backward?_dotted {head : String} (h : '.' ∉ head.toList) (tail : String) :
    t.backward? (head ++ "." ++ tail) = (t.built? (head ++ "." ++ tail)).or (t.built? head) := by
  have hcut : cutAt? (head ++ "." ++ tail) "." = some (head, tail) := cutAt?_of_not_mem rfl h tail
  rw [backward?, constructor?_eq, hcut]
  dsimp only
  rw [constructor?_eq]
  cases t.built? (head ++ "." ++ tail) <;> rfl

theorem backward?_of_built? {name : String} {e : Entry} (h : t.built? name = some e) :
    t.backward? name = some e := by
  rw [backward?, constructor?_eq, h]

/-- The only entry with a property is the last one with it. -/
theorem getLast?_filter_eq_some {es : List Entry} {p : Entry → Bool} {e : Entry} (he : e ∈ es)
    (hp : p e = true) (honly : ∀ f ∈ es, p f = true → f = e) : (es.filter p).getLast? = some e := by
  have hmem : e ∈ es.filter p := List.mem_filter.2 ⟨he, hp⟩
  obtain ⟨f, hf⟩ := Option.isSome_iff_exists.1 (List.getLast?_isSome.2 (List.ne_nil_of_mem hmem))
  obtain ⟨hmemf, hpf⟩ := List.mem_filter.1 (List.mem_of_getLast? hf)
  rw [hf, honly f hmemf hpf]

/-- Where no two entries share a target, the constructor of an entry stands for it. -/
theorem built?_target (htargets : (t.entries.map Entry.target).Nodup) {e : Entry}
    (he : e ∈ t.entries) :
    t.built? e.target = some e := by
  have hlast : (t.entries.filter fun f => f.target == e.target).getLast? = some e := by
    apply getLast?_filter_eq_some he (beq_self_eq_true e.target)
    intro f hf htarget
    exact List.inj_on_of_nodup_map htargets hf he (beq_iff_eq.1 htarget)
  rw [built?, hlast, Option.some_or]

/-- Where no two entries share a tag, each tag of an entry leads to it. -/
theorem forward?_tag (htags : t.entries.Pairwise fun e f => ∀ tag ∈ e.tags, tag ∉ f.tags)
    {e : Entry} (he : e ∈ t.entries) {tag : String} (htag : tag ∈ e.tags) :
    t.forward? tag = some e := by
  have hsymm : Std.Symm fun e f : Entry => ∀ tag ∈ e.tags, tag ∉ f.tags :=
    ⟨fun a b hab tag hb ha => hab tag ha hb⟩
  rw [forward?_eq]
  refine getLast?_filter_eq_some he (List.contains_iff_mem.2 htag) fun f hf htagf => ?_
  by_contra hne
  exact htags.forall hf he hne tag (List.contains_iff_mem.1 htagf) htag

/-- The table of any list of entries has each neutral name once, in the order in which the names
first occur, with the last entry of the name.  A tag leads to the last entry of the table that has
it, and a constructor to the last one whose target it is, or else to the first one that lists it as
a further constructor, or else to what the name before its first dot leads to.  So every entry is
found by its own constructor and its own tag, if no two entries of the table share a tag or a
target. -/
theorem ofEntries_lookup (es : List Entry) (sources : List String) :
    let t := ofEntries es sources
    (t.entries.map Entry.source = (es.map Entry.source).eraseDups ∧
      ∀ e ∈ t.entries, (es.filter fun x => x.source == e.source).getLast? = some e) ∧
    (∀ tag, t.forward? tag = (t.entries.filter fun e => e.tags.contains tag).getLast?) ∧
    (∀ name, '.' ∉ name.toList → t.backward? name = t.built? name) ∧
    (∀ head tail, '.' ∉ head.toList →
      t.backward? (head ++ "." ++ tail) = (t.built? (head ++ "." ++ tail)).or (t.built? head)) ∧
    (t.entries.Pairwise (fun e f => ∀ tag ∈ e.tags, tag ∉ f.tags) →
      (t.entries.map Entry.target).Nodup →
      ∀ e ∈ t.entries, ∃ f, t.backward? e.target = some f ∧ t.forward? f.source = some e) := by
  intro t
  refine ⟨⟨map_source_ofEntries es sources, fun e => getLast?_of_mem_ofEntries⟩, forward?_eq t,
    fun name => backward?_of_not_mem, fun head tail h => backward?_dotted h tail,
      fun htags htargets e he => ?_⟩
  refine ⟨e, backward?_of_built? (built?_target htargets he), ?_⟩
  exact forward?_tag htags he List.mem_cons_self

/-- In the bundled table every entry is found by its own constructor and its own tag. -/
theorem ofEntries_lookup_bundled :
    (Bundled.table.entries.Pairwise fun e f => ∀ tag ∈ e.tags, tag ∉ f.tags) ∧
      (Bundled.table.entries.map Entry.target).Nodup ∧
      ∀ e ∈ Bundled.table.entries,
        ∃ f, Bundled.table.backward? e.target = some f ∧ Bundled.table.forward? f.source =
          some e := by
  have htags : Bundled.table.entries.Pairwise fun e f => ∀ tag ∈ e.tags, tag ∉ f.tags := by
    decide +kernel
  have htargets : (Bundled.table.entries.map Entry.target).Nodup := by decide +kernel
  exact ⟨htags, htargets,
    (ofEntries_lookup Bundled.entries [Bundled.fileName]).2.2.2.2 htags htargets⟩

end WidgetBridge.Mapping.Table
