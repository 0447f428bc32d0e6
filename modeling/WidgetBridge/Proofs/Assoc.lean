import Mathlib.Data.List.Induction
import WidgetBridge.Value

/-!
# Association lists

How lookup, `put` and `ofPairs` deal with keys that are new: such a key has no value yet, it goes to
the end, and pairs with distinct keys are a map as they are (`ofPairs_of_nodup`).  `get?_put` and
`get?_putNew` give lookup after `put` and `putNew` for all keys.  Of other pairs each key keeps its
first place (`keys_ofPairs`) and gets its last value (`get?_ofPairs`).
-/

namespace WidgetBridge.Assoc

variable {α : Type}

@[simp] theorem keys_nil : keys ([] : Assoc α) = [] := rfl

@[simp] theorem keys_cons (e : String × α) (m : Assoc α) : keys (e :: m) = e.1 :: keys m := rfl

theorem keys_append (m n : Assoc α) : keys (m ++ n) = keys m ++ keys n := by
  simp [keys]

theorem lookup_eq_none_of_not_mem {m : Assoc α} {key : String} (h : key ∉ m.keys) :
    m.lookup key = none := by
  induction m with
  | nil => rfl
  | cons e m ih =>
    obtain ⟨k, v⟩ := e
    rw [keys_cons, List.mem_cons, not_or] at h
    rw [List.lookup_cons, beq_eq_false_iff_ne.2 h.1]
    exact ih h.2

/-- A key that stands once has the value it stands with. -/
theorem lookup_of_mem {m : Assoc α} (hkeys : m.keys.Nodup) {key : String} {v : α}
    (h : (key, v) ∈ m) :
    m.lookup key = some v := by
  induction m with
  | nil => cases h
  | cons e m ih =>
    obtain ⟨k, w⟩ := e
    rw [keys_cons, List.nodup_cons] at hkeys
    rcases List.mem_cons.1 h with hfirst | hrest
    · cases hfirst
      simp
    · have hne : key ≠ k := by
        rintro rfl
        exact hkeys.1 (List.mem_map.2 ⟨(key, v), hrest, rfl⟩)
      rw [List.lookup_cons, beq_eq_false_iff_ne.2 hne]
      exact ih hkeys.2 hrest

/-- A new key goes to the end. -/
theorem put_of_not_mem {m : Assoc α} {key : String} (h : key ∉ m.keys) (v : α) :
    m.put key v = m ++ [(key, v)] := by
  simp [put, has, lookup_eq_none_of_not_mem h]

theorem mem_of_get? {m : Assoc α} {key : String} {v : α} (h : m.get? key = some v) :
    (key, v) ∈ m := by
  unfold get? at h
  induction m with
  | nil => cases h
  | cons e m ih =>
    obtain ⟨k, w⟩ := e
    rw [List.lookup_cons] at h
    split at h
    · next hkey =>
      cases h
      rw [beq_iff_eq.1 hkey]
      exact List.mem_cons_self
    · exact List.mem_cons_of_mem _ (ih h)

theorem lookup_map_put (m : Assoc α) (key key' : String) (v : α) :
    (m.map fun e => if e.1 == key then (key, v) else e).lookup key' =
      if key' = key then (m.lookup key).map fun _ => v else m.lookup key' := by
  induction m with
  | nil => simp
  | cons e m ih =>
    obtain ⟨k, w⟩ := e
    rw [List.map_cons, List.lookup_cons, List.lookup_cons, List.lookup_cons, ih]
    by_cases hk : k = key
    · subst hk
      by_cases hk' : key' = k
      · simp [hk']
      · have hne : (key' == k) = false := by simpa using hk'
        simp [hk', hne]
    · have hne : (key == k) = false := by simpa using Ne.symm hk
      by_cases hk' : key' = key
      · simp [hk', hk, hne]
      · simp [hk', hk]

/-- After a key was given a value it has this one, and the others have theirs. -/
theorem get?_put (m : Assoc α) (key key' : String) (v : α) :
    (m.put key v).get? key' = if key' = key then some v else m.get? key' := by
  unfold put get? has
  split_ifs with hhas hkey hkey
  · obtain ⟨w, hw⟩ := Option.isSome_iff_exists.1 hhas
    rw [lookup_map_put, if_pos hkey, hw]
    rfl
  · rw [lookup_map_put, if_neg hkey]
  · rw [hkey, List.lookup_append, Option.not_isSome_iff_eq_none.1 hhas]
    simp
  · have hne : (key' == key) = false := by simpa using hkey
    simp [List.lookup_append, List.lookup_cons, hne]

/-- After a key was given a value unless it has one, the values that were there are still there. -/
theorem get?_putNew (m : Assoc α) (key key' : String) (v : α) :
    (m.putNew key v).get? key' = (m.get? key').or (if key' = key then some v else none) := by
  unfold putNew get? has
  split_ifs with hhas hkey hkey
  · obtain ⟨w, hw⟩ := Option.isSome_iff_exists.1 hhas
    rw [hkey, hw, Option.some_or]
  · rw [Option.or_none]
  · rw [List.lookup_append, hkey]
    simp
  · have hne : (key' == key) = false := by simpa using hkey
    simp [List.lookup_append, List.lookup_cons, hne]

theorem keys_put (m : Assoc α) (key : String) (v : α) :
    (m.put key v).keys = if key ∈ m.keys then m.keys else m.keys ++ [key] := by
  have hhas : m.has key = true ↔ key ∈ m.keys := by
    refine ⟨fun h => ?_, fun h => ?_⟩
    · by_contra hkey
      rw [has, lookup_eq_none_of_not_mem hkey] at h
      cases h
    · obtain ⟨e, he, rfl⟩ := List.mem_map.1 h
      rw [has, List.lookup_isSome_iff]
      exact ⟨e, he, beq_self_eq_true _⟩
  unfold put
  by_cases h : key ∈ m.keys
  · rw [if_pos (hhas.2 h), if_pos h, keys, keys, List.map_map]
    refine List.map_congr_left fun e _ => ?_
    rw [Function.comp_apply]
    split_ifs with hkey
    · exact (beq_iff_eq.1 hkey).symm
    · rfl
  · rw [if_neg fun hm => h (hhas.1 hm), if_neg h, keys_append]
    rfl

theorem mem_keys_put {m : Assoc α} {key k : String} {v : α} :
    k ∈ (m.put key v).keys ↔ k = key ∨ k ∈ m.keys := by
  rw [keys_put]
  split_ifs with h
  · exact ⟨.inr, fun hk => hk.elim (fun heq => heq ▸ h) id⟩
  · rw [List.mem_append, List.mem_singleton, or_comm]

theorem nodup_keys_put {m : Assoc α} (h : m.keys.Nodup) (key : String) (v : α) :
    (m.put key v).keys.Nodup := by
  rw [keys_put]
  split_ifs with hkey
  · exact h
  · exact (List.perm_append_singleton key _).nodup_iff.2 (List.nodup_cons.2 ⟨hkey, h⟩)

theorem foldl_put_of_nodup {m pairs : Assoc α} (h : (keys (m ++ pairs)).Nodup) :
    pairs.foldl (fun m e => put m e.1 e.2) m = m ++ pairs := by
  induction pairs generalizing m with
  | nil => simp
  | cons p ps ih =>
    have hnew : p.1 ∉ m.keys := by
      rw [keys_append, keys_cons, List.nodup_append] at h
      exact fun hp => h.2.2 p.1 hp p.1 List.mem_cons_self rfl
    have happ : m ++ p :: ps = m ++ [p] ++ ps := by simp
    rw [List.foldl_cons, put_of_not_mem hnew, ih (by rwa [← happ]), ← happ]

/-- Pairs with distinct keys are a map as they are. -/
theorem ofPairs_of_nodup {pairs : List (String × α)} (h : (keys pairs).Nodup) :
    ofPairs pairs = pairs :=
  foldl_put_of_nodup (m := []) h

theorem ofPairs_concat (pairs : List (String × α)) (e : String × α) :
    ofPairs (pairs ++ [e]) = (ofPairs pairs).put e.1 e.2 := by
  rw [ofPairs, ofPairs, List.foldl_append]
  rfl

/-- Each key has its first place. -/
theorem keys_ofPairs (pairs : List (String × α)) :
    keys (ofPairs pairs) = (keys pairs).eraseDups := by
  induction pairs using List.reverseRecOn with
  | nil => rfl
  | append_singleton pairs e ih =>
    rw [ofPairs_concat, keys_put, ih, keys_append, List.eraseDups_append]
    simp only [List.mem_eraseDups]
    split_ifs with h
    · have hnone : (keys [e]).removeAll (keys pairs) = [] := by simp [List.removeAll, h]
      rw [hnone, List.eraseDups_nil, List.append_nil]
    · have hall : (keys [e]).removeAll (keys pairs) = [e.1] := by simp [List.removeAll, h]
      rw [hall]
      rfl

theorem nodup_keys_ofPairs (pairs : List (String × α)) : (keys (ofPairs pairs)).Nodup := by
  induction pairs using List.reverseRecOn with
  | nil => exact List.nodup_nil
  | append_singleton pairs e ih =>
    rw [ofPairs_concat]
    exact nodup_keys_put ih e.1 e.2

/-- Each key has its last value. -/
theorem get?_ofPairs (pairs : List (String × α)) (key : String) :
    (ofPairs pairs).get? key = pairs.reverse.lookup key := by
  induction pairs using List.reverseRecOn with
  | nil => rfl
  | append_singleton pairs e ih =>
    rw [ofPairs_concat, get?_put, ih, List.reverse_append, List.reverse_singleton,
      List.singleton_append, List.lookup_cons]
    by_cases h : key = e.1
    · simp [h]
    · have hne : (key == e.1) = false := by simpa using h
      simp [h, hne]

theorem mem_of_mem_put {m : Assoc α} {key : String} {v : α} {e : String × α} (h : e ∈ m.put key v) :
    e = (key, v) ∨ e ∈ m := by
  unfold put at h
  split_ifs at h
  · obtain ⟨d, hd, rfl⟩ := List.mem_map.1 h
    split_ifs
    · exact .inl rfl
    · exact .inr hd
  · rcases List.mem_append.1 h with h | h
    · exact .inr h
    · exact .inl (List.mem_singleton.1 h)

theorem mem_of_mem_ofPairs {pairs : List (String × α)} {e : String × α} (h : e ∈ ofPairs pairs) :
    e ∈ pairs := by
  have key (ps : List (String × α)) (m : Assoc α) (h : e ∈ ps.foldl (fun m e => put m e.1 e.2) m) :
      e ∈ ps ∨ e ∈ m := by
    induction ps generalizing m with
    | nil => exact .inr h
    | cons p ps ih =>
      rcases ih _ h with h | h
      · exact .inl (List.mem_cons_of_mem _ h)
      · rcases mem_of_mem_put h with rfl | h
        · exact .inl List.mem_cons_self
        · exact .inr h
  exact (key pairs [] h).resolve_right List.not_mem_nil

end WidgetBridge.Assoc
