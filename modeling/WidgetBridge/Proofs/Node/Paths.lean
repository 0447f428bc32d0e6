import WidgetBridge.Node
import WidgetBridge.Proofs.Number.Numeral
import WidgetBridge.Proofs.Text.Layout

/-!
# Paths of nodes

A path writes out the child indexes that lead to a node, and no two lists of indexes have the same
path (`steps_injective`).  So the path of a place tells this place from all others: what is replaced
at a path is the one node there, and a path that leads nowhere changes nothing (`replace_pathOf`).
-/

namespace WidgetBridge.Node

open WidgetBridge.Text WidgetBridge.Number

/-! ## Places -/

/-- The node that a list of child indexes leads to. -/
def at? : List Nat → Node → Option Node
  | [], n => some n
  | i :: is, n => n.children[i]?.bind (at? is)

/-- A node without the nodes below it. -/
def shell : Node → Node
  | .element e _ => .element e []
  | n => n

/-- The tree with another node at a place. -/
def put (new : Node) : List Nat → Node → Node
  | [], _ => new
  | i :: is, .element e cs => .element e (cs.modify i (put new is))
  | _ :: _, n => n

theorem put_cons (new : Node) (i : Nat) (is : List Nat) (n : Node) :
    (put new (i :: is) n).children = n.children.modify i (put new is) := by
  cases n <;> simp [put, children]

theorem shell_put_cons (new : Node) (i : Nat) (is : List Nat) (n : Node) :
    shell (put new (i :: is) n) = shell n := by
  cases n <;> rfl

/-- At a place that is put, and below it, stands what was put there. -/
theorem at?_put {new : Node} {is : List Nat} {n : Node} (h : (at? is n).isSome) (js : List Nat) :
    at? (is ++ js) (put new is n) = at? js new := by
  induction is generalizing n with
  | nil => rfl
  | cons i is ih =>
    rw [at?] at h
    obtain ⟨c, hc, hplace⟩ : ∃ c, n.children[i]? = some c ∧ (at? is c).isSome := by
      cases hc : n.children[i]? with
      | none => simp [hc] at h
      | some c => exact ⟨c, rfl, by simpa [hc] using h⟩
    rw [List.cons_append, at?, put_cons, List.getElem?_modify_eq, hc]
    exact ih hplace

/-- All other nodes stay as they are. -/
theorem shell_at?_put (new : Node) {is js : List Nat} (h : ¬ is <+: js) (n : Node) :
    (at? js (put new is n)).map shell = (at? js n).map shell := by
  induction is generalizing js n with
  | nil => exact absurd List.nil_prefix h
  | cons i is ih =>
    cases js with
    | nil => exact congrArg some (shell_put_cons new i is n)
    | cons j js =>
      rw [at?, at?, put_cons]
      by_cases hij : i = j
      · subst hij
        rw [List.getElem?_modify_eq]
        cases n.children[i]? with
        | none => rfl
        | some c => exact ih (fun hp => h (List.cons_prefix_cons.2 ⟨rfl, hp⟩)) c
      · rw [List.getElem?_modify_ne _ _ hij]

theorem put_eq_self {new : Node} {is : List Nat} {n : Node} (h : at? is n = none) :
    put new is n = n := by
  induction is generalizing n with
  | nil => cases h
  | cons i is ih =>
    cases n with
    | element e cs =>
      rw [put]
      congr 1
      refine List.ext_getElem? fun j => ?_
      rw [List.getElem?_modify]
      split_ifs with hij
      · subst hij
        cases hc : cs[i]? with
        | none => rfl
        | some c => exact congrArg some (ih (by simpa [at?, children, hc] using h))
      · simp
    | text v => rfl
    | slot s => rfl

mutual

/-- The places of a tree with their nodes, parents before children. -/
def located : Node → List (List Nat × Node)
  | .element e cs => ([], .element e cs) :: locatedAll 0 cs
  | .text v => [([], .text v)]
  | .slot s => [([], .slot s)]

/-- The places below a list of children from an index on. -/
def locatedAll (index : Nat) : List Node → List (List Nat × Node)
  | [] => []
  | n :: ns => (located n).map (fun p => (index :: p.1, p.2)) ++ locatedAll (index + 1) ns

end

theorem exists_of_mem_locatedAll {index : Nat} {ns : List Node} {p : List Nat × Node}
    (h : p ∈ locatedAll index ns) : ∃ i is, p.1 = i :: is ∧ index ≤ i := by
  induction ns generalizing index with
  | nil => cases h
  | cons n ns ih =>
    rw [locatedAll, List.mem_append, List.mem_map] at h
    rcases h with ⟨q, -, rfl⟩ | h
    · exact ⟨index, q.1, rfl, Nat.le_refl _⟩
    · obtain ⟨i, is, hp, hi⟩ := ih h
      exact ⟨i, is, hp, by omega⟩

mutual

theorem mem_located {is : List Nat} {m : Node} :
    (n : Node) → ((is, m) ∈ located n ↔ at? is n = some m)
  | .element e cs => by
    have hcs := @mem_locatedAll is m 0 cs
    cases is with
    | nil =>
      rw [located, at?, List.mem_cons, hcs]
      simp [eq_comm]
    | cons i is =>
      rw [located, at?, List.mem_cons, hcs]
      simp [children]
  | .text v => by cases is <;> simp [located, at?, children, eq_comm]
  | .slot s => by cases is <;> simp [located, at?, children, eq_comm]

theorem mem_locatedAll {is : List Nat} {m : Node} : (index : Nat) → (ns : List Node) →
    ((is, m) ∈ locatedAll index ns ↔ ∃ i js, is = (index + i) :: js ∧ ns[i]?.bind (at? js) = some m)
  | index, [] => by simp [locatedAll]
  | index, n :: ns => by
    rw [locatedAll, List.mem_append, mem_locatedAll (index + 1) ns, List.mem_map]
    constructor
    · rintro (⟨⟨js, m'⟩, hp, heq⟩ | ⟨i, js, rfl, hm⟩)
      · cases heq
        exact ⟨0, js, rfl, (mem_located n).1 hp⟩
      · exact ⟨i + 1, js, by rw [Nat.add_assoc, Nat.add_comm 1], hm⟩
    · rintro ⟨i, js, rfl, hm⟩
      cases i with
      | zero => exact .inl ⟨(js, m), (mem_located n).2 hm, rfl⟩
      | succ i => exact .inr ⟨i, js, by rw [Nat.add_assoc, Nat.add_comm 1], hm⟩

end

mutual

theorem pairwise_located : (n : Node) → (located n).Pairwise fun p q => p.1 < q.1
  | .element e cs => by
    rw [located, List.pairwise_cons]
    refine ⟨fun p hp => ?_, pairwise_locatedAll 0 cs⟩
    obtain ⟨i, is, hp, -⟩ := exists_of_mem_locatedAll hp
    rw [hp]
    exact List.nil_lt_cons i is
  | .text v => List.pairwise_singleton _ _
  | .slot s => List.pairwise_singleton _ _

theorem pairwise_locatedAll : (index : Nat) → (ns : List Node) →
    (locatedAll index ns).Pairwise fun p q => p.1 < q.1
  | index, [] => List.Pairwise.nil
  | index, n :: ns => by
    rw [locatedAll, List.pairwise_append, List.pairwise_map]
    refine ⟨(pairwise_located n).imp fun h => List.cons_lt_cons_iff.2 (.inr ⟨rfl, h⟩),
      pairwise_locatedAll (index + 1) ns, fun p hp q hq => ?_⟩
    obtain ⟨p, -, rfl⟩ := List.mem_map.1 hp
    obtain ⟨i, is, hq, hi⟩ := exists_of_mem_locatedAll hq
    rw [hq]
    exact List.cons_lt_cons_iff.2 (.inl hi)

end

/-! ## Paths of places -/

/-- What stands before a child index. -/
def childMark : List Char := ".children[".toList

/-- What a path says of one child index. -/
def step (i : Nat) : List Char := childMark ++ (digitsOf i ++ [']'])

/-- What a path says of a list of child indexes. -/
def steps (is : List Nat) : List Char := is.flatMap step

theorem showInt_natCast (i : Nat) : showInt (i : Int) = String.ofList (digitsOf i) := rfl

theorem toList_childPath (path : String) (i : Nat) :
    (childPath path i).toList = path.toList ++ step i := by
  have h : (childPath path i).toList =
      path.toList ++ (".children[".toList ++ (digitsOf i ++ "]".toList)) := by
    rw [childPath, showInt_natCast]
    simp only [String.toList_append, String.toList_ofList, List.append_assoc]
  exact h

theorem toList_childPath_append (path : String) (i : Nat) (is : List Nat) :
    (childPath path i).toList ++ steps is = path.toList ++ steps (i :: is) := by
  rw [toList_childPath, List.append_assoc]
  rfl

theorem toList_pathOf (is : List Nat) :
    (pathOf (is.map Int.ofNat)).toList = "root".toList ++ steps is := by
  have key (path : String) : ((is.map Int.ofNat).foldl childPath path).toList =
      path.toList ++ steps is := by
    induction is generalizing path with
    | nil => simp [steps]
    | cons i is ih =>
      rw [List.map_cons, List.foldl_cons, ih]
      exact toList_childPath_append path i is
  exact key "root"

theorem digitsOf_append_injective {i j : Nat} {cs ds : List Char}
    (h : digitsOf i ++ ']' :: cs = digitsOf j ++ ']' :: ds) : i = j ∧ cs = ds := by
  have hdigits (k : Nat) (es : List Char) :
      (digitsOf k ++ ']' :: es).takeWhile isDigit = digitsOf k := by
    rw [List.takeWhile_append_of_pos fun c hc => isDigit_of_mem_digitsOf hc,
      List.takeWhile_cons_of_neg (by decide), List.append_nil]
  have hij : digitsOf i = digitsOf j := by
    rw [← hdigits i cs, h, hdigits]
  have hvalue : ofDigits 10 ((digitsOf i).map fun c => c.toNat - 48) = j := by
    rw [hij, ofDigits_digitsOf]
  rw [ofDigits_digitsOf] at hvalue
  rw [hij] at h
  exact ⟨hvalue, (List.cons.inj (List.append_cancel_left h)).2⟩

theorem steps_cons_injective {i j : Nat} {is js : List Nat}
    (h : steps (i :: is) = steps (j :: js)) :
    i = j ∧ steps is = steps js := by
  simp only [steps, List.flatMap_cons, step, List.append_assoc, List.singleton_append] at h
  exact digitsOf_append_injective (List.append_cancel_left h)

theorem steps_cons_ne_nil (i : Nat) (is : List Nat) : steps (i :: is) ≠ [] := by
  simp [steps, step]

/-- Different lists of indexes have different paths. -/
theorem steps_injective {is js : List Nat} (h : steps is = steps js) : is = js := by
  induction is generalizing js with
  | nil =>
    cases js with
    | nil => rfl
    | cons j js => exact absurd h.symm (steps_cons_ne_nil j js)
  | cons i is ih =>
    cases js with
    | nil => exact absurd h (steps_cons_ne_nil i is)
    | cons j js =>
      obtain ⟨rfl, htail⟩ := steps_cons_injective h
      rw [ih htail]

theorem pathOf_injective {is js : List Nat}
    (h : pathOf (is.map Int.ofNat) = pathOf (js.map Int.ofNat)) : is = js := by
  rw [← String.toList_inj, toList_pathOf, toList_pathOf, List.append_cancel_left_eq] at h
  exact steps_injective h

/-- A place of its own has the path itself. -/
theorem own_path {path : String} {path' : List Nat → String}
    (hpath : ∀ is, (path' is).toList = path.toList ++ steps is) : path' [] = path := by
  rw [← String.toList_inj, hpath]
  exact List.append_nil _

mutual

theorem walk_eq {path : String} {path' : List Nat → String}
    (hpath : ∀ is, (path' is).toList = path.toList ++ steps is) :
    (n : Node) → walk path n = (located n).map fun p => (path' p.1, p.2)
  | .element e cs => by
    rw [walk, located, List.map_cons, walkAll_eq hpath 0 cs, own_path hpath]
  | .text v => by rw [walk, located, List.map_singleton, own_path hpath]
  | .slot s => by rw [walk, located, List.map_singleton, own_path hpath]

theorem walkAll_eq {path : String} {path' : List Nat → String}
    (hpath : ∀ is, (path' is).toList = path.toList ++ steps is) : (index : Nat) → (ns : List Node) →
    walkAll path index ns = (locatedAll index ns).map fun p => (path' p.1, p.2)
  | index, [] => rfl
  | index, n :: ns => by
    have hchild : ∀ is, (path' (index :: is)).toList =
        (childPath path index).toList ++ steps is := by
      intro is
      rw [hpath, toList_childPath_append]
    rw [walkAll, locatedAll, List.map_append, List.map_map, walkAll_eq hpath (index + 1) ns,
      walk_eq hchild n]
    rfl

end

/-! ## Replacing -/

theorem beq_path_eq_false {target path : String}
    (h : ∀ is, target.toList ≠ path.toList ++ steps is) : (path == target) = false := by
  rw [beq_eq_false_iff_ne]
  rintro rfl
  exact h [] (List.append_nil _).symm

mutual

/-- A path that leads to no place below a node leaves it as it is. -/
theorem replace_eq_self (new : Node) {target path : String} : (n : Node) →
    (∀ is, target.toList ≠ path.toList ++ steps is) → replace target new path n = n
  | .element e cs, h => by
    have hcs : replaceAll target new path 0 cs = cs :=
      replaceAll_eq_self new 0 cs fun i _ is => h (i :: is)
    rw [replace, beq_path_eq_false h, hcs]
    simp
  | .text v, h => by rw [replace, beq_path_eq_false h]; rfl
  | .slot s, h => by rw [replace, beq_path_eq_false h]; rfl

theorem replaceAll_eq_self (new : Node) {target path : String} : (index : Nat) → (ns : List Node) →
    (∀ i, index ≤ i → ∀ is, target.toList ≠ path.toList ++ steps (i :: is)) →
    replaceAll target new path index ns = ns
  | index, [], _ => rfl
  | index, n :: ns, h => by
    have hn : replace target new (childPath path index) n = n := by
      refine replace_eq_self new n fun is => ?_
      rw [toList_childPath_append]
      exact h index (Nat.le_refl _) is
    rw [replaceAll, hn, replaceAll_eq_self new (index + 1) ns fun i hi =>
      h i (Nat.le_of_succ_le hi)]

end

theorem beq_path_of_nil {target path : String} (h : target.toList = path.toList ++ steps []) :
    (path == target) = true := by
  rw [beq_iff_eq, ← String.toList_inj, h]
  exact (List.append_nil _).symm

theorem beq_path_of_cons {target path : String} {i : Nat} {is : List Nat}
    (h : target.toList = path.toList ++ steps (i :: is)) : (path == target) = false := by
  rw [beq_eq_false_iff_ne]
  rintro rfl
  exact steps_cons_ne_nil i is (List.self_eq_append_right.1 h)

theorem hasHead_of_cons {target path : String} {i : Nat} {is : List Nat}
    (h : target.toList = path.toList ++ steps (i :: is)) :
    hasHead target (path ++ ".children[") = true := by
  have hmark : (path ++ ".children[").toList = path.toList ++ childMark := String.toList_append
  have htarget : target.toList = (path.toList ++ childMark) ++ (digitsOf i ++ ']' :: steps is) := by
    simp only [h, steps, List.flatMap_cons, step, List.append_assoc, List.singleton_append]
  rw [hasHead, hmark, htarget, dropHead?_append]
  rfl

mutual

/-- The node that a path leads to is replaced, and nothing else. -/
theorem replace_eq_put (new : Node) {target path : String} {is : List Nat}
    (h : target.toList = path.toList ++ steps is) :
    (n : Node) → replace target new path n = put new is n
  | .element e cs => by
    cases is with
    | nil => rw [replace, beq_path_of_nil h, if_pos rfl, put]
    | cons i is =>
      have hcs := replaceAll_eq_modify new h 0 i (Nat.zero_add i) cs
      rw [replace, beq_path_of_cons h, hasHead_of_cons h, if_neg Bool.false_ne_true,
        if_pos rfl, put, hcs]
  | .text v => by
    cases is with
    | nil => rw [replace, beq_path_of_nil h, if_pos rfl, put]
    | cons i is => rw [replace, beq_path_of_cons h, if_neg Bool.false_ne_true, put]; nofun
  | .slot s => by
    cases is with
    | nil => rw [replace, beq_path_of_nil h, if_pos rfl, put]
    | cons i is => rw [replace, beq_path_of_cons h, if_neg Bool.false_ne_true, put]; nofun

theorem replaceAll_eq_modify (new : Node) {target path : String} {i : Nat} {is : List Nat}
    (h : target.toList = path.toList ++ steps (i :: is)) (index j : Nat) (hj : index + j = i) :
    (ns : List Node) → replaceAll target new path index ns = ns.modify j (put new is)
  | [] => by simp [replaceAll]
  | n :: ns => by
    cases j with
    | zero =>
      subst hj
      have hn : replace target new (childPath path index) n = put new is n :=
        replace_eq_put new (by rw [h, toList_childPath_append]; rfl) n
      have hns : replaceAll target new path (index + 1) ns = ns := by
        refine replaceAll_eq_self new (index + 1) ns fun k hk js heq => ?_
        rw [h, List.append_cancel_left_eq] at heq
        have := (steps_cons_injective heq).1
        omega
      rw [replaceAll, hn, hns]
      rfl
    | succ j =>
      have hn : replace target new (childPath path index) n = n := by
        refine replace_eq_self new n fun js heq => ?_
        rw [h, toList_childPath_append, List.append_cancel_left_eq] at heq
        have := (steps_cons_injective heq).1
        omega
      rw [replaceAll, hn, replaceAll_eq_modify new h (index + 1) j (by omega) ns]
      rfl

end

/-- What is replaced at the path of a place is the node there: what stood there is the new node with
all below it, and every other node keeps its place and what it carries.  A path of no place changes
nothing. The walk over a tree gives the paths of all places, each once, in the order of their
indexes. -/
theorem replace_pathOf (t new : Node) :
    (∀ is, (at? is t).isSome →
      (∀ js, at? (is ++ js) (replace (pathOf (is.map Int.ofNat)) new "root" t) = at? js new) ∧
      ∀ js, ¬ is <+: js → (at? js (replace (pathOf (is.map Int.ofNat)) new "root" t)).map shell =
        (at? js t).map shell) ∧
    (∀ path, (∀ is, (at? is t).isSome → path ≠ pathOf (is.map Int.ofNat)) →
      replace path new "root" t = t) ∧
    ((walk "root" t).map Prod.fst).Nodup ∧
    ∃ places : List (List Nat × Node), places.Pairwise (fun p q => p.1 < q.1) ∧
      (∀ is n, (is, n) ∈ places ↔ at? is t = some n) ∧
      walk "root" t = places.map fun p => (pathOf (p.1.map Int.ofNat), p.2) := by
  have hwalk : walk "root" t = (located t).map fun p => (pathOf (p.1.map Int.ofNat), p.2) :=
    walk_eq toList_pathOf t
  refine ⟨fun is h => ?_, fun path h => ?_, ?_, located t, pairwise_located t,
    fun is n => mem_located t, hwalk⟩
  · rw [replace_eq_put new (toList_pathOf is) t]
    exact ⟨at?_put h, fun js hjs => shell_at?_put new hjs t⟩
  · by_cases hpath : ∃ is, path.toList = "root".toList ++ steps is
    · obtain ⟨is, his⟩ := hpath
      have hnone : at? is t = none := by
        by_contra hsome
        refine h is (Option.isSome_iff_ne_none.2 hsome) ?_
        rw [← String.toList_inj, his, toList_pathOf]
      rw [replace_eq_put new his t, put_eq_self hnone]
    · exact replace_eq_self new t fun is his => hpath ⟨is, his⟩
  · rw [hwalk, List.map_map, List.Nodup, List.pairwise_map]
    refine (pairwise_located t).imp fun {p q} hlt heq => ?_
    rw [pathOf_injective heq] at hlt
    exact List.lt_irrefl _ hlt

/-- A count with a button below it. -/
def counter : Node :=
  .element { widget := "Stack" } [.text "Count", .element { widget := "Button" } [.text "Inc"]]

/-- The text of the button is replaced and the count stays; there is no eighth child. -/
theorem replace_pathOf_counter :
    ((at? [1, 0] counter).isSome ∧ ¬ [1, 0] <+: [0] ∧
      at? [1, 0] (replace (pathOf ([1, 0].map Int.ofNat)) (.text "Add") "root" counter) =
        some (.text "Add") ∧
      (at? [0] (replace (pathOf ([1, 0].map Int.ofNat)) (.text "Add") "root" counter)).map shell =
        some (.text "Count")) ∧
    (∀ is, (at? is counter).isSome → pathOf ([7].map Int.ofNat) ≠ pathOf (is.map Int.ofNat)) ∧
      replace (pathOf ([7].map Int.ofNat)) (.text "Add") "root" counter = counter := by
  have hplace := (replace_pathOf counter (.text "Add")).1 [1, 0] rfl
  have hnowhere : ∀ is, (at? is counter).isSome →
      pathOf ([7].map Int.ofNat) ≠ pathOf (is.map Int.ofNat) := by
    rintro is his heq
    rw [← pathOf_injective heq] at his
    cases his
  exact ⟨⟨rfl, by decide, hplace.1 [], hplace.2 [0] (by decide)⟩, hnowhere,
    (replace_pathOf counter (.text "Add")).2.1 _ hnowhere⟩

end WidgetBridge.Node
