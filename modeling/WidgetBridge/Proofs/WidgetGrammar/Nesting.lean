import WidgetBridge.Proofs.WidgetGrammar.Measure
import WidgetBridge.Proofs.WidgetGrammar.Splitting

/-!
# Expressions are properly nested

The parts of an expression are expressions too: arguments, items, keys and values, and the body
after an arrow (`Expr.children`).  `Expr.IsNested` says of an expression and all of its parts that
each of them stands for a closed, non-empty slice of the source, that each part takes up less than
what it is a part of, and that the parts of one expression stand one after another.

Reading a closed range of a source gives such an expression, or fails with a place
(`expr_isNested_of_read`).  The induction is on the fuel; what carries it is that the ranges which
are read next are spanned by trees inside the brackets, or behind the arrow, of the range at hand
(`Shape.Within`).
-/

namespace WidgetBridge.WidgetGrammar

open WidgetBridge.Text

/-! ## Parts of expressions -/

/-- The expressions that an expression consists of, in the order of the source. -/
def Expr.children : Expr → List Expr
  | .call _ _ _ args _ => args.map (·.2)
  | .list _ items => items
  | .map _ entries => entries.flatMap fun e => [e.1, e.2]
  | .closure _ _ body _ => body.toList
  | .string _ _ | .literal _ _ | .other _ => []

/-- An expression that stands for a slice of a source, and all parts of which do so inside of it,
one after another. -/
inductive Expr.IsNested (source : String) (s : Source) : Expr → Prop
  | mk {e : Expr} (slice : e.range.IsSlice source s)
  (children : ∀ c ∈ e.children, IsNested source s c)
    (inside : ∀ c ∈ e.children, e.range.start ≤ c.range.start ∧ c.range.stop ≤ e.range.stop ∧
      (e.range.start < c.range.start ∨ c.range.stop < e.range.stop))
    (ordered : e.children.Pairwise fun c d => c.range.stop ≤ d.range.start) : IsNested source s e

theorem Expr.IsNested.slice {source : String} {s : Source} {e : Expr} (h : e.IsNested source s) :
    e.range.IsSlice source s := by
  cases h
  assumption

@[simp] theorem Expr.range_withRange (r : Range) (e : Expr) : (e.withRange r).range = r := by
  cases e <;> rfl

@[simp] theorem Expr.children_withRange (r : Range) (e : Expr) :
    (e.withRange r).children = e.children := by
  cases e <;> rfl

/-- An expression may take up more of the source in front of it. -/
theorem Expr.IsNested.withRange {source : String} {s : Source} {e : Expr} (h : e.IsNested source s)
    {r : Range} (hr : r.IsSlice source s) (hstart : r.start ≤ e.range.start)
    (hstop : r.stop = e.range.stop) :
    (e.withRange r).IsNested source s := by
  obtain ⟨-, hchildren, hinside, hordered⟩ := h
  refine ⟨?_, ?_, fun c hc => ?_, ?_⟩
  · rwa [Expr.range_withRange]
  · rwa [Expr.children_withRange]
  · rw [Expr.children_withRange] at hc
    rw [Expr.range_withRange]
    have := hinside c hc
    omega
  · rwa [Expr.children_withRange]

/-! ## Ranges one after another -/

/-- Ranges that span parts of a range of the source, one after another. -/
def Source.Lined (s : Source) (start stop : Nat) : List Range → Prop
  | [] => start ≤ stop
  | r :: rs => ∃ i j, start ≤ i ∧ s.Spans i j r.trees ∧ s.Lined j stop rs

section Lined

variable {s : Source} (hs : s.Formed) {start stop : Nat}

theorem Source.Lined.mono {rs : List Range} {first : Nat} (h : s.Lined start stop rs)
    (hle : first ≤ start) :
    s.Lined first stop rs := by
  cases rs with
  | nil => exact Nat.le_trans hle h
  | cons r rs =>
    obtain ⟨i, j, hi, hr⟩ := h
    exact ⟨i, j, Nat.le_trans hle hi, hr⟩

theorem Source.Lined.le {rs : List Range} (h : s.Lined start stop rs) : start ≤ stop := by
  induction rs generalizing start with
  | nil => exact h
  | cons r rs ih =>
    obtain ⟨i, j, hi, hr, hrs⟩ := h
    exact Nat.le_trans hi (Nat.le_trans hr.covers.le (ih hrs))

include hs

/-- Ranges in a line keep to its bounds and do not overlap. -/
theorem Source.Lined.bounds {rs : List Range} (h : s.Lined start stop rs)
    (hne : ∀ r ∈ rs, r.trees ≠ []) :
    (∀ r ∈ rs, start ≤ r.start ∧ r.stop ≤ stop) ∧ rs.Pairwise fun r u => r.stop ≤ u.start := by
  induction rs generalizing start with
  | nil => exact ⟨nofun, List.Pairwise.nil⟩
  | cons r rs ih =>
    obtain ⟨i, j, hi, hr, hrs⟩ := h
    obtain ⟨hr', hrs'⟩ := List.forall_mem_cons.1 hne
    obtain ⟨rfl, rfl, hlt⟩ := hr.ends_eq hs hr'
    have hle := hrs.le
    obtain ⟨hin, hordered⟩ := ih hrs hrs'
    refine ⟨List.forall_mem_cons.2 ⟨⟨hi, hle⟩, fun u hu => ?_⟩,
      List.pairwise_cons.2 ⟨fun u hu => (hin u hu).1, hordered⟩⟩
    have := hin u hu
    omega

/-- The parts between separators stand in a line. -/
theorem Parted.lined {separator : String} {ts : List TokenTree} {rs : List Range}
    (hp : Parted separator ts rs) (h : s.Spans start stop ts) : s.Lined start stop rs := by
  induction hp generalizing start with
  | nil => exact h.covers.le
  | gap _ _ ih => exact (ih (h.tail_of_leaf hs).2).mono (Nat.le_succ _)
  | last => exact ⟨start, stop, Nat.le_refl _, h, Nat.le_refl _⟩
  | part _ _ _ _ ih =>
    obtain ⟨m, hr, hrest⟩ := h.append hs
    exact ⟨start, m, Nat.le_refl _, hr, (ih (hrest.tail_of_leaf hs).2).mono (Nat.le_succ _)⟩

end Lined

theorem Range.IsSlice.ne_nil {source : String} {s : Source} {r : Range} (h : r.IsSlice source s) :
    r.trees ≠ [] := by
  intro hnil
  have hlt := h.start_lt
  rw [Range.stop, last?_eq_getLast?, Range.tokens, hnil] at hlt
  exact Nat.lt_irrefl _ hlt

/-- Expressions that stand in a line and are all nested. -/
structure Source.Family (source : String) (s : Source) (start stop : Nat)
    (es : List Expr) : Prop where
  lined : s.Lined start stop (es.map Expr.range)
  nested : ∀ e ∈ es, e.IsNested source s

/-- An expression is nested if its parts stand in a line that leaves out one of its ends. -/
theorem Source.Family.isNested {source : String} {s : Source} (hs : s.Formed) {e : Expr} {i j : Nat}
    (h : s.Family source i j e.children) (hslice : e.range.IsSlice source s)
    (hi : e.range.start ≤ i) (hj : j ≤ e.range.stop)
    (hproper : e.range.start < i ∨ j < e.range.stop) : e.IsNested source s := by
  have hne : ∀ r ∈ e.children.map Expr.range, r.trees ≠ [] := by
    intro r hr
    obtain ⟨c, hc, rfl⟩ := List.mem_map.1 hr
    exact (h.nested c hc).slice.ne_nil
  obtain ⟨hbounds, hordered⟩ := h.lined.bounds hs hne
  refine ⟨hslice, h.nested, fun c hc => ?_, List.pairwise_map.1 hordered⟩
  have := hbounds c.range (List.mem_map_of_mem hc)
  omega

theorem Expr.IsNested.of_no_children {source : String} {s : Source} {e : Expr}
    (hslice : e.range.IsSlice source s) (h : e.children = []) : e.IsNested source s :=
  ⟨hslice, by simp [h], by simp [h], by simp [h]⟩

theorem Source.Family.nil {source : String} {s : Source} {start stop : Nat} (h : start ≤ stop) :
    s.Family source start stop [] :=
  ⟨h, fun _ he => absurd he List.not_mem_nil⟩

theorem Source.Family.cons {source : String} {s : Source} {e : Expr} {es : List Expr}
    {start i j stop : Nat} (h : s.Family source j stop es) (he : e.IsNested source s)
    (hspans : s.Spans i j e.range.trees) (hi : start ≤ i) : s.Family source start stop (e :: es) :=
  ⟨⟨i, j, hi, hspans, h.lined⟩, List.forall_mem_cons.2 ⟨he, h.nested⟩⟩

/-! ## What is read next -/

/-- A shape of a range whose parts that are read next stand inside brackets of the range, or behind
its arrow. -/
def Shape.Within (s : Source) (start stop : Nat) : Shape → Prop
  | .listOf inner _ | .mapOf inner _ | .callOf _ _ inner _ =>
    ∃ i j, start ≤ i ∧ j < stop ∧ s.Spans i j inner
  | .arrow _ _ body => ∃ i, start < i ∧ s.Spans i stop body
  | .block _ _ | .other => True

section Shapes

variable {s : Source} (hs : s.Formed) {start stop : Nat} {ts : List TokenTree}

include hs

theorem exists_spans_of_group {o c : Token} {inner : List TokenTree} (h : s.Spans start stop ts)
    (hgroup : [TokenTree.group o inner c] <:+ ts) :
    ∃ i j, start ≤ i ∧ j < stop ∧ s.Spans i j inner := by
  obtain ⟨m, hm, hlast⟩ := h.suffix hs hgroup
  obtain ⟨j, rfl, -, -, hinner⟩ := hlast.inner hs
  exact ⟨m + 1, j, by omega, Nat.lt_succ_self j, hinner⟩

theorem within_callShape (h : s.Spans start stop ts) : (callShape ts).Within s start stop := by
  unfold callShape
  split
  · next callee typeArgs o inner c hhead =>
      exact exists_spans_of_group hs h (group_suffix_of_callHead? hhead)
  · trivial

theorem within_openShape (h : s.Spans start stop ts) : (openShape ts).Within s start stop := by
  unfold openShape
  split
  · next o inner c a body =>
    split_ifs
    · rw [← List.singleton_append] at h
      obtain ⟨m, hgroup, hrest⟩ := h.append hs
      exact ⟨m + 1, Nat.lt_succ_of_le hgroup.covers.le, (hrest.tail_of_leaf hs).2⟩
    · exact within_callShape hs h
  · split_ifs
    · trivial
    · exact within_callShape hs h
  · exact within_callShape hs h

theorem within_collection? {us : List TokenTree} (h : s.Spans start stop ts) (hus : us <:+ ts)
    {shape : Shape} (hshape : collection? us = some shape) : shape.Within s start stop := by
  unfold collection? at hshape
  split at hshape
  · split_ifs at hshape <;> cases hshape <;> exact exists_spans_of_group hs h hus
  · cases hshape

theorem within_shapeOf (h : s.Spans start stop ts) : (shapeOf ts).Within s start stop := by
  have hgetD {us : List TokenTree} (hus : us <:+ ts) :
      ((collection? us).getD (openShape ts)).Within s start stop := by
    cases hshape : collection? us with
    | none => exact within_openShape hs h
    | some shape => exact within_collection? hs h hus hshape
  unfold shapeOf
  split_ifs
  · split
    · trivial
    · next rest hargs => exact hgetD (typeArgs?_suffix hargs)
  · exact hgetD List.suffix_rfl

end Shapes

theorem argumentRange_suffix (r : Range) : (argumentRange r).2.trees <:+ r.trees := by
  unfold argumentRange
  split
  · next n colon v heq =>
    split_ifs
    · rw [heq]
      exact (List.suffix_cons _ _).trans (List.suffix_cons _ _)
    · exact List.suffix_rfl
  · exact List.suffix_rfl

theorem exists_trees_of_entryRanges? {entry k v : Range} (h : entryRanges? entry = some (k, v)) :
    ∃ colon, entry.trees = k.trees ++ colon :: v.trees := by
  unfold entryRanges? at h
  rw [Option.map_eq_some_iff] at h
  obtain ⟨⟨key, colon, value⟩, hcut, heq⟩ := h
  cases heq
  exact ⟨colon, cutTop?_eq hcut⟩

/-! ## Reading -/

/-- With some fuel, what is read of a range that needs no more is nested in it. -/
structure ReadsNested (source : String) (s : Source) (fuel : Nat) : Prop where
  expr : ∀ (r : Range) (start stop : Nat), s.Spans start stop r.trees →
    3 * TokenTree.sizeOf' r.trees + 1 ≤ fuel →
    Ends (exprOf fuel r) (fun e => e.range = r ∧ e.IsNested source s) Placed
  shape : ∀ (r : Range) (shape : Shape) (start stop : Nat), s.Spans start stop r.trees →
    r.trees ≠ [] →
    shape.Within s start stop → 3 * shape.size ≤ fuel → 0 < fuel →
    Ends (shapeExpr fuel r shape) (fun e => e.range = r ∧ e.IsNested source s) Placed
  items : ∀ (rs : List Range) (start stop : Nat), s.Lined start stop rs →
    3 * sizeOfParts rs + 1 ≤ fuel →
    Ends (exprsOf fuel rs) (s.Family source start stop) Placed
  entries : ∀ (rs : List Range) (start stop : Nat), s.Lined start stop rs →
    3 * sizeOfParts rs + 1 ≤ fuel →
    Ends (entriesOf fuel rs)
      (fun o => ∀ es ∈ o, s.Family source start stop (es.flatMap fun e => [e.1, e.2])) Placed
  arguments : ∀ (rs : List Range) (start stop : Nat), s.Lined start stop rs →
    3 * sizeOfParts rs + 1 ≤ fuel →
    Ends (argsOf fuel rs) (fun as => s.Family source start stop (as.map (·.2))) Placed

section Reading

variable {source : String} {s : Source} {fuel start stop : Nat}

theorem ReadsNested.expr_succ (ih : ReadsNested source s fuel) (hread : Source.read source = .ok s)
    {r : Range} (h : s.Spans start stop r.trees)
    (hfuel : 3 * TokenTree.sizeOf' r.trees + 1 ≤ fuel + 1) :
    Ends (exprOf (fuel + 1) r) (fun e => e.range = r ∧ e.IsNested source s) Placed := by
  have hs := formed_of_read hread
  unfold exprOf
  dsimp only
  split_ifs with hempty hbare
  · exact .error ⟨_, _, rfl⟩
  all_goals
    have hne : r.trees ≠ [] := by simpa [Range.isEmpty] using hempty
    have hslice := h.isSlice hread hne
  · -- the prefix is part of the range, and of no part of the expression
    simp only [Bool.and_eq_true, Bool.not_eq_true', List.isEmpty_eq_false_iff,
      decide_eq_true_eq] at hbare
    have hlt := sizeOf'_lt_of_suffix (dropConst_suffix r.trees) hbare.2
    obtain ⟨m, hm, hrest⟩ := h.suffix hs (dropConst_suffix r.trees)
    obtain ⟨hstart, hstop, -⟩ := h.ends_eq hs hne
    obtain ⟨hstart', hstop', -⟩ := hrest.ends_eq hs (r := ⟨dropConst r.trees, r.follow⟩) hbare.1
    refine Ends.bind (ih.expr ⟨dropConst r.trees, r.follow⟩ m stop hrest (by dsimp only; omega))
      fun e he => ?_
    obtain ⟨hrange, he⟩ := he
    refine .ok ⟨Expr.range_withRange r e, he.withRange hslice ?_ ?_⟩
    · rw [hrange, hstart, hstart']
      exact hm
    · rw [hrange, hstop, hstop']
  · split
    · exact .ok ⟨rfl, .of_no_children hslice rfl⟩
    · split
      · next v hv =>
        have hnum := ((ends_read source).of_ok s hread).numeral
        exact Ends.bind (ends_atom? hnum h.covers.infix hv) fun w _ =>
          .ok ⟨rfl, .of_no_children hslice rfl⟩
      · have hpos := sizeOf'_pos hne
        have hsize := size_shapeOf_le r.trees
        exact ih.shape r _ start stop h hne (within_shapeOf hs h) (by omega) (by omega)

theorem ReadsNested.shape_succ (ih : ReadsNested source s fuel) (hread : Source.read source = .ok s)
    {r : Range} {shape : Shape} (h : s.Spans start stop r.trees)
    (hne : r.trees ≠ []) (hshape : shape.Within s start stop) (hfuel : 3 * shape.size ≤ fuel + 1) :
    Ends (shapeExpr (fuel + 1) r shape) (fun e => e.range = r ∧ e.IsNested source s) Placed := by
  have hs := formed_of_read hread
  have hslice := h.isSlice hread hne
  have hparts {i j : Nat} {inner : List TokenTree} (c : Token) (h : s.Spans i j inner) :
      s.Lined i j ((Range.mk inner (some c)).splitTop ",") ∧
        sizeOfParts ((Range.mk inner (some c)).splitTop ",") ≤ TokenTree.sizeOf' inner + 1 :=
    ⟨(parted_splitTop ⟨inner, some c⟩ ",").lined hs h, sizeOfParts_splitTop ⟨inner, some c⟩ ","⟩
  obtain ⟨rfl, rfl, -⟩ := h.ends_eq hs hne
  cases shape with
  | listOf inner c =>
    obtain ⟨i, j, hi, hj, hinner⟩ := hshape
    obtain ⟨hlined, hsize⟩ := hparts c hinner
    simp only [Shape.size] at hfuel
    refine Ends.bind (ih.items _ i j hlined (by omega)) fun es hes => .ok ⟨rfl, ?_⟩
    exact hes.isNested hs (e := .list r es) hslice hi (Nat.le_of_lt hj) (.inr hj)
  | mapOf inner c =>
    obtain ⟨i, j, hi, hj, hinner⟩ := hshape
    obtain ⟨hlined, hsize⟩ := hparts c hinner
    simp only [Shape.size] at hfuel
    refine Ends.bind (ih.entries _ i j hlined (by omega)) fun o ho => ?_
    cases o with
    | none => exact .ok ⟨rfl, .of_no_children hslice rfl⟩
    | some es =>
      exact .ok
        ⟨rfl, (ho es rfl).isNested hs (e := .map r es) hslice hi (Nat.le_of_lt hj) (.inr hj)⟩
  | arrow params a body =>
    obtain ⟨i, hi, hbody⟩ := hshape
    simp only [Shape.size] at hfuel
    refine Ends.bind (ih.expr ⟨body, _⟩ i r.stop hbody (by dsimp only; omega)) fun e he =>
      .ok ⟨rfl, ?_⟩
    obtain ⟨hrange, he⟩ := he
    have hspans : s.Spans i r.stop e.range.trees := by rwa [hrange]
    have hfamily : s.Family source i r.stop [e] :=
      (Source.Family.nil (Nat.le_refl _)).cons he hspans (Nat.le_refl _)
    exact hfamily.isNested hs (e := .closure r (paramNames params) (some e) none) hslice
      (Nat.le_of_lt hi) (Nat.le_refl _) (.inl hi)
  | block params body => exact .ok ⟨rfl, .of_no_children hslice rfl⟩
  | callOf callee typeArgs inner c =>
    obtain ⟨i, j, hi, hj, hinner⟩ := hshape
    obtain ⟨hlined, hsize⟩ := hparts c hinner
    simp only [Shape.size] at hfuel
    refine Ends.bind (ih.arguments _ i j hlined (by omega)) fun args hargs => .ok ⟨rfl, ?_⟩
    exact hargs.isNested hs (e := .call r callee typeArgs args (leadingComments inner c)) hslice hi
      (Nat.le_of_lt hj) (.inr hj)
  | other => exact .ok ⟨rfl, .of_no_children hslice rfl⟩

theorem ReadsNested.items_succ (ih : ReadsNested source s fuel) {rs : List Range}
    (h : s.Lined start stop rs) (hfuel : 3 * sizeOfParts rs + 1 ≤ fuel + 1) :
    Ends (exprsOf (fuel + 1) rs) (s.Family source start stop) Placed := by
  cases rs with
  | nil => exact .ok (.nil h)
  | cons r rs =>
    rw [sizeOfParts_cons] at hfuel
    obtain ⟨i, j, hi, hr, hrs⟩ := h
    refine Ends.bind (ih.expr r i j hr (by omega)) fun e he => ?_
    refine Ends.bind (ih.items rs j stop hrs (by omega)) fun es hes => ?_
    obtain ⟨rfl, he⟩ := he
    exact .ok (hes.cons he hr hi)

theorem ReadsNested.entries_succ (ih : ReadsNested source s fuel)
    (hread : Source.read source = .ok s) {rs : List Range} (h : s.Lined start stop rs)
    (hfuel : 3 * sizeOfParts rs + 1 ≤ fuel + 1) :
    Ends (entriesOf (fuel + 1) rs)
      (fun o => ∀ es ∈ o, s.Family source start stop (es.flatMap fun e => [e.1, e.2])) Placed := by
  have hs := formed_of_read hread
  cases rs with
  | nil =>
    refine .ok ?_
    rintro es ⟨⟩
    exact .nil h
  | cons r rs =>
    rw [sizeOfParts_cons] at hfuel
    obtain ⟨i, j, hi, hr, hrs⟩ := h
    unfold entriesOf
    split
    · exact .ok fun es hes => by cases hes
    · next k v hkv =>
      obtain ⟨colon, htrees⟩ := exists_trees_of_entryRanges? hkv
      have hksize := sizeOf'_le_of_infix (infix_entryRanges? hkv).1
      have hvsize := sizeOf'_le_of_infix (infix_entryRanges? hkv).2
      -- the key stands in front of the colon, the value behind it
      rw [htrees, List.append_cons] at hr
      obtain ⟨m, hhead, hv⟩ := hr.append hs
      obtain ⟨n, hk, hcolon⟩ := hhead.append hs
      refine Ends.bind (ih.expr k i n hk (by omega)) fun key hkey => ?_
      refine Ends.bind (ih.expr v m j hv (by omega)) fun value hvalue => ?_
      refine Ends.bind (ih.entries rs j stop hrs (by omega)) fun o ho => ?_
      obtain ⟨rfl, hkey⟩ := hkey
      obtain ⟨rfl, hvalue⟩ := hvalue
      cases o with
      | none => exact .ok fun es hes => by cases hes
      | some es =>
        refine .ok ?_
        rintro _ ⟨⟩
        exact ((ho es rfl).cons hvalue hv hcolon.covers.le).cons hkey hk hi

theorem ReadsNested.arguments_succ (ih : ReadsNested source s fuel)
    (hread : Source.read source = .ok s) {rs : List Range} (h : s.Lined start stop rs)
    (hfuel : 3 * sizeOfParts rs + 1 ≤ fuel + 1) :
    Ends (argsOf (fuel + 1) rs) (fun as => s.Family source start stop (as.map (·.2))) Placed := by
  cases rs with
  | nil => exact .ok (.nil h)
  | cons r rs =>
    rw [sizeOfParts_cons] at hfuel
    obtain ⟨i, j, hi, hr, hrs⟩ := h
    have hsize := sizeOf'_le_of_infix (infix_argumentRange r)
    obtain ⟨m, hm, hvalue⟩ := hr.suffix (formed_of_read hread) (argumentRange_suffix r)
    refine Ends.bind (ih.expr _ m j hvalue (by omega)) fun e he => ?_
    refine Ends.bind (ih.arguments rs j stop hrs (by omega)) fun as has => ?_
    obtain ⟨hrange, he⟩ := he
    rw [← hrange] at hvalue
    exact .ok (has.cons he hvalue (Nat.le_trans hi hm))

/-- What is read is nested, however deep the reader goes. -/
theorem readsNested (hread : Source.read source = .ok s) (fuel : Nat) :
    ReadsNested source s fuel := by
  induction fuel with
  | zero => constructor <;> intros <;> omega
  | succ fuel ih =>
    exact {
      expr := fun _ _ _ h hfuel => ih.expr_succ hread h hfuel
      shape := fun _ _ _ _ h hne hshape hfuel _ => ih.shape_succ hread h hne hshape hfuel
      items := fun _ _ _ h hfuel => ih.items_succ h hfuel
      entries := fun _ _ _ h hfuel => ih.entries_succ hread h hfuel
      arguments := fun _ _ _ h hfuel => ih.arguments_succ hread h hfuel }

end Reading

/-- A closed range of a source that is not empty is read as an expression whose parts are properly
nested slices of the source, or fails with a place.  Three steps for each token are enough. -/
theorem expr_isNested_of_read {source : String} {s : Source} (hread : Source.read source = .ok s)
    {start stop : Nat} (hclosed : s.IsClosed start stop) (hlt : start < stop) :
    (∀ fuel, 3 * (stop - start) + 1 ≤ fuel →
      exprOf fuel (s.range start stop) = (s.range start stop).expr) ∧
    ((∃ message place, (s.range start stop).expr = .error (.malformed message place)) ∨
      ∃ e, (s.range start stop).expr = .ok e ∧ e.range.start = start ∧ e.range.stop = stop ∧
        e.IsNested source s) := by
  have hs := formed_of_read hread
  have hspans := hclosed.spans hs
  obtain ⟨-, -, -, -, hlength⟩ := hspans.covers
  rw [length_tokensOf] at hlength
  have hne : (s.range start stop).trees ≠ [] := by
    intro hnil
    rw [hnil, TokenTree.sizeOf'] at hlength
    omega
  refine ⟨fun fuel hfuel => exprOf_eq_expr (by omega), ?_⟩
  have hends := (readsNested hread (3 * TokenTree.sizeOf' (s.range start stop).trees + 3)).expr
    (s.range start stop) start stop hspans (by omega)
  cases hexpr : (s.range start stop).expr with
  | error f =>
    obtain ⟨message, place, rfl⟩ := hends.of_error f hexpr
    exact .inl ⟨message, place, rfl⟩
  | ok e =>
    obtain ⟨hrange, hnested⟩ := hends.of_ok e hexpr
    obtain ⟨hstart, hstop, -⟩ := hspans.ends_eq hs hne
    exact .inr ⟨e, rfl, by rw [hrange, hstart], by rw [hrange, hstop], hnested⟩

/-- A call behind a prefix, with type arguments, a list that holds a map, and a closure. -/
def prefixedCall : String := "const Row<int>(children: [a, \x7bb: 1\x7d], onTap: (x) => f(x))"

theorem expr_isNested_of_read_prefixedCall :
    ∃ s e, Source.read prefixedCall = .ok s ∧ s.IsClosed 0 29 ∧
    0 < 29 ∧ (s.range 0 29).expr = .ok e ∧ e.children.length = 2 ∧ e.range.start = 0 ∧
      e.range.stop = 29 ∧
    e.IsNested prefixedCall s := by
  have hread : (Source.read prefixedCall).toOption.any (fun s => decide (s.IsClosed 0 29) &&
      (s.range 0 29).expr.toOption.any fun e => e.children.length == 2) = true := by decide +kernel
  obtain ⟨s, hread, htest⟩ := exists_ok_of_any hread
  obtain ⟨hclosed, hexpr⟩ := Bool.and_eq_true_iff.1 htest
  obtain ⟨e, he, hlength⟩ := exists_ok_of_any hexpr
  have hclosed := of_decide_eq_true hclosed
  obtain ⟨-, hends⟩ := expr_isNested_of_read hread hclosed (by decide)
  rcases hends with ⟨message, place, herror⟩ | ⟨e', he', hstart, hstop, hnested⟩
  · rw [he] at herror
    cases herror
  · rw [he] at he'
    cases he'
    exact ⟨s, e, hread, hclosed, by decide, he, beq_iff_eq.1 hlength, hstart, hstop, hnested⟩

end WidgetBridge.WidgetGrammar
