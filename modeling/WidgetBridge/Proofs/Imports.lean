import Mathlib.Data.List.Sort
import Mathlib.Data.String.Basic
import WidgetBridge.Imports
import WidgetBridge.Proofs.Assoc

/-!
# Tables of imports

What a table of imports holds after names are taken from a module: `mem_keys_merge` and
`mem_namesOf_merge` say it for many modules at once, as membership, so that the order in which they
come does not show.  A table is tidy if no module and no name stands twice; sorted texts of tidy
tables are strictly ascending, and they are the same for tables that hold the same
(`sortTexts_congr`). `Alike` relates two collections of imports that hold the same, and imports that
are taken from source keep it.
-/

namespace WidgetBridge

open WidgetBridge.Text

/-! ## Sets of texts -/

theorem addTexts_cons (set : List String) (s : String) (new : List String) :
    addTexts set (s :: new) = addTexts (if set.contains s then set else set ++ [s]) new := rfl

theorem mem_addTexts {set new : List String} {s : String} :
    s ∈ addTexts set new ↔ s ∈ set ∨ s ∈ new := by
  induction new generalizing set with
  | nil => simp [addTexts]
  | cons t new ih =>
    rw [addTexts_cons, ih, List.mem_cons]
    split_ifs with h
    · rw [List.contains_iff_mem] at h
      constructor
      · rintro (hs | hs)
        · exact .inl hs
        · exact .inr (.inr hs)
      · rintro (hs | rfl | hs)
        · exact .inl hs
        · exact .inl h
        · exact .inr hs
    · rw [List.mem_append, List.mem_singleton, or_assoc]

theorem nodup_addTexts {set : List String} (h : set.Nodup) (new : List String) :
    (addTexts set new).Nodup := by
  induction new generalizing set with
  | nil => exact h
  | cons t new ih =>
    rw [addTexts_cons]
    apply ih
    split_ifs with ht
    · exact h
    · rw [List.contains_iff_mem] at ht
      exact (List.perm_append_singleton t set).nodup_iff.2 (List.nodup_cons.2 ⟨ht, h⟩)

theorem perm_sortTexts (ss : List String) : (sortTexts ss).Perm ss := List.mergeSort_perm _ _

theorem sorted_sortTexts (ss : List String) : (sortTexts ss).Pairwise (· ≤ ·) := by
  have hle (a b : String) : (!decide (b < a)) = true ↔ a ≤ b := by
    rw [Bool.not_eq_true', decide_eq_false_iff_not, not_lt]
  have h : (sortTexts ss).Pairwise fun a b => (!decide (b < a)) = true :=
    List.pairwise_mergeSort
      (fun a b c hab hbc => (hle a c).2 (((hle a b).1 hab).trans ((hle b c).1 hbc)))
      (fun a b => by
        rw [Bool.or_eq_true, hle, hle]
        exact le_total a b) ss
  exact h.imp (hle _ _).1

/-- Distinct texts ascend strictly once they are sorted. -/
theorem ascending_sortTexts {ss : List String} (h : ss.Nodup) :
    (sortTexts ss).Pairwise (· < ·) := by
  have hnodup : (sortTexts ss).Nodup := (perm_sortTexts ss).nodup_iff.2 h
  exact (sorted_sortTexts ss).imp₂ (fun _ _ hle hne => lt_of_le_of_ne hle hne) hnodup

/-- Sorting forgets in which order a set of texts came about. -/
theorem sortTexts_congr {ss ts : List String} (hs : ss.Nodup) (ht : ts.Nodup)
    (h : ∀ s, s ∈ ss ↔ s ∈ ts) : sortTexts ss = sortTexts ts := by
  have hperm : (sortTexts ss).Perm (sortTexts ts) :=
    (perm_sortTexts ss).trans
      (((List.perm_ext_iff_of_nodup hs ht).2 h).trans (perm_sortTexts ts).symm)
  exact hperm.eq_of_pairwise (fun a b _ _ => le_antisymm) (sorted_sortTexts ss)
    (sorted_sortTexts ts)

/-! ## Names by module -/

namespace ModuleNames

variable {m : ModuleNames} {module : String} {names : List String}

/-- The names taken from a module. -/
def namesOf (m : ModuleNames) (module : String) : List String := (Assoc.get? m module).getD []

/-- A table in which no module and no name of a module stands twice. -/
structure IsTidy (m : ModuleNames) : Prop where
  modules : (Assoc.keys m).Nodup
  names : ∀ module, (m.namesOf module).Nodup

theorem mem_keys_add {k : String} :
    k ∈ Assoc.keys (m.add module names) ↔ k = module ∨ k ∈ Assoc.keys m :=
  Assoc.mem_keys_put

theorem namesOf_add (m : ModuleNames) (module k : String) (names : List String) :
    (m.add module names).namesOf k =
      if k = module then addTexts (m.namesOf module) names else m.namesOf k := by
  rw [namesOf, add, Assoc.get?_put]
  split_ifs
  · rfl
  · rfl

theorem isTidy_nil : IsTidy [] := ⟨List.nodup_nil, fun _ => List.nodup_nil⟩

theorem IsTidy.add (h : m.IsTidy) (module : String) (names : List String) :
    (m.add module names).IsTidy := by
  refine ⟨Assoc.nodup_keys_put h.modules _ _, fun k => ?_⟩
  rw [namesOf_add]
  split_ifs
  · exact nodup_addTexts (h.names module) names
  · exact h.names k

theorem merge_cons (m : ModuleNames) (e : String × List String) (asks : ModuleNames) :
    m.merge (e :: asks) = (m.add e.1 e.2).merge asks := rfl

theorem IsTidy.merge (h : m.IsTidy) (asks : ModuleNames) : (m.merge asks).IsTidy := by
  induction asks generalizing m with
  | nil => exact h
  | cons e asks ih =>
    rw [merge_cons]
    exact ih (h.add e.1 e.2)

theorem mem_keys_merge {asks : ModuleNames} {k : String} :
    k ∈ Assoc.keys (m.merge asks) ↔ k ∈ Assoc.keys m ∨ ∃ e ∈ asks, e.1 = k := by
  induction asks generalizing m with
  | nil => simp [merge]
  | cons e asks ih =>
    rw [merge_cons, ih, mem_keys_add, List.exists_mem_cons_iff, eq_comm (a := k), or_assoc]
    exact or_left_comm

theorem mem_namesOf_merge {asks : ModuleNames} {k s : String} :
    s ∈ (m.merge asks).namesOf k ↔ s ∈ m.namesOf k ∨ ∃ e ∈ asks, e.1 = k ∧ s ∈ e.2 := by
  induction asks generalizing m with
  | nil => simp [merge]
  | cons e asks ih =>
    rw [merge_cons, ih, namesOf_add, List.exists_mem_cons_iff, ← or_assoc]
    refine or_congr_left ?_
    split_ifs with hk
    · rw [hk, mem_addTexts]
      exact or_congr_right ⟨fun hs => ⟨rfl, hs⟩, fun hs => hs.2⟩
    · exact ⟨.inl, fun hs => hs.resolve_right fun h => hk h.1.symm⟩

end ModuleNames

/-! ## Imports that hold the same -/

namespace Imports

variable {i j : Imports}

/-- Two collections of imports that hold the same.  The order of modules and of names may differ. -/
structure Alike (i j : Imports) : Prop where
  modules : ∀ module, module ∈ Assoc.keys i.named ↔ module ∈ Assoc.keys j.named
  names : ∀ module name, name ∈ i.named.namesOf module ↔ name ∈ j.named.namesOf module
  defaults : i.defaults = j.defaults
  raw : i.raw = j.raw

theorem Alike.refl (i : Imports) : i.Alike i := ⟨fun _ => .rfl, fun _ _ => .rfl, rfl, rfl⟩

theorem Alike.merge (h : i.Alike j) {asks asks' : ModuleNames} (hasks : ∀ a, a ∈ asks ↔ a ∈ asks') :
    (i.merge asks).Alike (j.merge asks') where
  modules module := by
    simp only [Imports.merge, ModuleNames.mem_keys_merge, h.modules, hasks]
  names module name := by
    simp only [Imports.merge, ModuleNames.mem_namesOf_merge, h.names, hasks]
  defaults := h.defaults
  raw := h.raw

theorem Alike.add (h : i.Alike j) (module : String) (names : List String) :
    (i.add module names).Alike (j.add module names) := by
  have hmerge : (i.merge [(module, names)]).Alike (j.merge [(module, names)]) :=
    h.merge fun _ => .rfl
  exact hmerge

theorem merge_append (i : Imports) (asks more : ModuleNames) :
    i.merge (asks ++ more) = (i.merge asks).merge more := by
  simp only [merge, ModuleNames.merge, List.foldl_append]

/-- An import statement adds the same to imports that hold the same. -/
theorem Alike.take? (h : i.Alike j) (source : String) :
    (i.take? source = none ∧ j.take? source = none) ∨
    ∃ i' j', i.take? source = some i' ∧ j.take? source = some j' ∧ i'.Alike j' ∧
      (i.named.IsTidy → i'.named.IsTidy) := by
  unfold Imports.take?
  dsimp only
  split_ifs
  · exact .inl ⟨rfl, rfl⟩
  · right
    split
    · next m _ =>
      cases m.group? 1 with
      | none => exact ⟨_, _, rfl, rfl, h.add _ _, fun ht => ht.add _ _⟩
      | some name =>
        have hput : Alike { i with defaults := i.defaults.put (m.get 3) name }
            { j with defaults := j.defaults.put (m.get 3) name } :=
          ⟨h.modules, h.names, by rw [h.defaults], h.raw⟩
        exact ⟨_, _, rfl, rfl, hput.add _ _, fun ht => ht.add _ _⟩
    · split
      · exact ⟨_, _, rfl, rfl, h.add _ _, fun ht => ht.add _ _⟩
      · exact ⟨_, _, rfl, rfl, ⟨h.modules, h.names, h.defaults, by rw [h.raw]⟩, fun ht => ht⟩

end Imports

end WidgetBridge
