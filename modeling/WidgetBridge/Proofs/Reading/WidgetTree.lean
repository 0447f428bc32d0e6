import WidgetBridge.Proofs.Assoc
import WidgetBridge.Proofs.WidgetGrammar.Member
import WidgetBridge.Reading.WidgetSource

/-!
# Lowering of mapped constructors

`Settles r a` says that a step of reading gives `a` and notes nothing.  A constructor call whose
arguments are props that carry over as they are, a child or a list of children is lowered argument
by argument:

* `settles_fillAll_props` takes up the props in their order;
* `settles_fillNamed_child` takes up the children;
* `settles_lower_mapped` puts the element together.

Each step uses up fuel, of which a call has eight times its number of tokens.
-/

namespace WidgetBridge.Reading

open WidgetBridge.Text WidgetBridge.WidgetGrammar WidgetBridge.Mapping

/-- A step of reading that gives a result and notes nothing. -/
def Settles {α : Type} (r : Reader α) (a : α) : Prop := ∀ notes, r.run notes = .ok (a, notes)

theorem settles_pure {α : Type} (a : α) : Settles (pure a) a := fun _ => rfl

theorem Settles.bind {α β : Type} {r : Reader α} {a : α} (hr : Settles r a)
    {f : α → Reader β} {b : β} (hf : Settles (f a) b) : Settles (r >>= f) b := by
  intro notes
  rw [StateT.run_bind, hr notes]
  exact hf notes

theorem settles_note_nil : Settles (note []) () := by
  intro notes
  simp only [note, List.append_nil]
  rfl

theorem settles_lift {α : Type} {x : Attempt α} {a : α} (h : x = .ok a) :
    Settles (StateT.lift x) a := by
  subst h
  exact fun _ => rfl

variable {table : Table} {declarations : List Member} {entry : Entry} {path callee : String}

/-! ## Props -/

/-- A prop that is carried back under the same name with the same value. -/
structure CarriesBack (entry : Entry) (name : String) : Prop where
  carry : ∀ v path, entry.carryProp name v .backward path = .ok ((name, v), [])
  ne_child : name ≠ "child" ∧ name ≠ "children" ∧ name ≠ "key"
  not_slot : entry.singleSlot? ≠ some name

theorem settles_putProp {name : String} (h : CarriesBack entry name) (v : PropValue)
    (props : Props) : Settles (putProp entry path name v props) (props.put name v) :=
  (settles_lift (h.carry v path)).bind (settles_note_nil.bind (settles_pure _))

/-- An entry without nested constructors and layouts. -/
structure Flat (entry : Entry) : Prop where
  no_groups : entry.groups = []
  no_layout : entry.layout = none

theorem Flat.layoutWidgets_eq (h : Flat entry) : layoutWidgets entry = [] := by
  simp [layoutWidgets, h.no_layout]

theorem Flat.nestedArgs?_eq (h : Flat entry) (name : String) (e : Expr) :
    nestedArgs? entry name e = none := by
  cases e <;> simp [nestedArgs?, h.no_groups, Assoc.get?]

theorem Flat.layoutCall?_eq (h : Flat entry) (callee name : String) (e : Expr) :
    layoutCall? entry callee name e = none := by
  cases e <;> simp [layoutCall?, h.layoutWidgets_eq]

theorem settles_fillNamed_prop (hflat : Flat entry) {name : String} (h : CarriesBack entry name)
    (fuel : Nat) (e : Expr) (f : Filled) :
    Settles (fillNamed table declarations (fuel + 1) path entry callee name e f)
      { f with props := f.props.put name e.toProp } := by
  have hput : Settles (putProp entry path name e.toProp f.props) _ :=
    settles_putProp h e.toProp f.props
  have hslot : (name == "child" || name == "children" || entry.singleSlot? == some name) =
      false := by
    simp [h.ne_child.1, h.ne_child.2.1, h.not_slot]
  have hkey : (name == "key") = false := by simp [h.ne_child.2.2]
  rw [fillNamed]
  simp only [hslot, hkey, Bool.false_eq_true, if_false, hflat.nestedArgs?_eq,
    hflat.layoutWidgets_eq, List.contains_nil]
  exact hput.bind (settles_pure _)

/-! ## Children -/

/-- The expression of a node: a call other than a column, which is lowered to the node. -/
structure Lowers (table : Table) (declarations : List Member) (n : Node) (e : Expr) : Prop where
  call : ∃ r callee args, e = .call r callee "" args [] ∧ r.Invokes callee ∧
    startsUpper callee = true
  not_column : plainColumn? e = none
  lower : ∀ fuel, 8 * TokenTree.sizeOf' e.range.trees + 1 ≤ fuel → ∀ path,
    Settles (lower table declarations fuel path (some e)) [n]

theorem settles_lowerItems {ns : List Node} {es : List Expr}
    (h : Meet (ns.map (Lowers table declarations)) es) {fuel : Nat}
    (hf : 8 * sizeOfExprs es + 1 ≤ fuel) (index : Nat) :
    Settles (lowerItems table declarations fuel path index es) ns := by
  induction ns generalizing es fuel index with
  | nil =>
    cases h
    obtain ⟨fuel, rfl⟩ := Nat.exists_eq_succ_of_ne_zero (by omega : fuel ≠ 0)
    exact settles_pure _
  | cons n ns ih =>
    obtain ⟨e, es, he, hes, rfl⟩ := List.forall₂_cons_left_iff.1 h
    rw [sizeOfExprs_cons] at hf
    obtain ⟨fuel, rfl⟩ := Nat.exists_eq_succ_of_ne_zero (by omega : fuel ≠ 0)
    exact (he.lower fuel (by omega) _).bind ((ih hes (by omega) _).bind (settles_pure _))

theorem settles_lower_list {ns : List Node} {e : Expr}
    (h : IsList (ns.map (Lowers table declarations)) e) {fuel : Nat}
    (hf : 8 * TokenTree.sizeOf' e.range.trees + 1 ≤ fuel) :
    Settles (lower table declarations fuel path (some e)) ns := by
  obtain ⟨r, items, rfl, hmeet, hsize⟩ := h
  simp only [Expr.range] at hf
  obtain ⟨fuel, rfl⟩ := Nat.exists_eq_succ_of_ne_zero (by omega : fuel ≠ 0)
  rw [lower]
  exact settles_lowerItems hmeet (by omega) 0

/-- The argument that holds children, whatever it is called. -/
theorem settles_fillNamed_child (hflat : Flat entry) {name : String}
    (hname : name = "child" ∨ name = "children") {e : Expr} (hcolumn : plainColumn? e = none)
    {fuel : Nat} {ns : List Node} (h : Settles (lower table declarations fuel path (some e)) ns)
    (f : Filled) :
    Settles (fillNamed table declarations (fuel + 1) path entry callee name e f)
      { f with children := f.children ++ ns } := by
  have hslot : (name == "child" || name == "children" || entry.singleSlot? == some name) =
      true := by
    rcases hname with rfl | rfl <;> simp
  have hcontent : slotContent entry name e = e := by simp [slotContent, hcolumn]
  rw [fillNamed]
  simp only [hslot, if_true, hflat.layoutCall?_eq, hcontent]
  exact h.bind (settles_pure _)

/-! ## Arguments -/

theorem settles_fillAll_nil (fuel : Nat) (f : Filled) :
    Settles (fillAll table declarations (fuel + 1) path entry callee [] f) f := settles_pure f

theorem settles_fillAll_named {name : String} {e : Expr} {args : Args} {f g h : Filled} {fuel : Nat}
    (hstep : Settles (fillNamed table declarations fuel path entry callee name e f) g)
    (hrest : Settles (fillAll table declarations fuel path entry callee args g) h) :
    Settles (fillAll table declarations (fuel + 1) path entry callee ((some name, e) :: args) f)
      h :=
  hstep.bind hrest

/-- What an argument is known to be if it holds a prop. -/
def propSpec (p : String × PropValue) : ArgSpec := (some p.1, fun e => e.toProp = p.2)

/-- Props that carry over are taken up in their order. -/
theorem settles_fillAll_props (hflat : Flat entry) {props : Props}
    (hc : ∀ p ∈ props, CarriesBack entry p.1) {args : Args}
    (ha : ArgsMeet (props.map propSpec) args) {rest : Args} {f g : Filled}
    (hk : (Assoc.keys (f.props ++ props)).Nodup) {fuel : Nat} (hf : 1 ≤ fuel)
    (h : Settles (fillAll table declarations fuel path entry callee rest
      { f with props := f.props ++ props }) g) :
    Settles (fillAll table declarations (fuel + props.length) path entry callee (args ++ rest) f)
      g := by
  induction props generalizing args f with
  | nil =>
    cases ha
    simpa using h
  | cons p props ih =>
    obtain ⟨⟨name, e⟩, args, ⟨hname, he⟩, hargs, rfl⟩ := List.forall₂_cons_left_iff.1 ha
    have hname : name = some p.1 := hname
    have he : e.toProp = p.2 := he
    subst hname
    obtain ⟨k, hk'⟩ : ∃ k, fuel + props.length = k + 1 := ⟨fuel + props.length - 1, by omega⟩
    have hnew : p.1 ∉ Assoc.keys f.props := by
      rw [Assoc.keys_append, Assoc.keys_cons, List.nodup_append] at hk
      exact fun hp => hk.2.2 p.1 hp p.1 List.mem_cons_self rfl
    have hput : f.props.put p.1 e.toProp = f.props ++ [p] := by
      rw [Assoc.put_of_not_mem hnew, he]
    have hstep : Settles (fillNamed table declarations (k + 1) path entry callee p.1 e f) _ :=
      settles_fillNamed_prop hflat (hc p List.mem_cons_self) k e f
    rw [hput] at hstep
    have hrest := ih (fun q hq => hc q (List.mem_cons_of_mem _ hq)) hargs
      (f := { f with props := f.props ++ [p] }) (by simpa using hk) (by simpa using h)
    rw [List.length_cons, ← Nat.add_assoc, List.cons_append, hk']
    rw [hk'] at hrest
    exact settles_fillAll_named hstep hrest

/-! ## Elements -/

/-- An entry whose constructor is read back by the entry and by nothing else. -/
structure Constructs (table : Table) (entry : Entry) : Prop where
  no_aliases : entry.targetAliases = []
  backward : table.backward? entry.target = some entry
  upper : startsUpper entry.target = true
  not_wrapper : Motion.wrapperNames.contains entry.target = false
  not_router : routerNames.contains entry.target = false
  not_container : entry.target ≠ "Container"
  not_wrapped : entry.textMode ≠ .wrap

/-- A call of a mapped constructor becomes an element with what its arguments give. -/
theorem settles_lower_mapped (h : Constructs table entry) {r : Range} {args : Args} {f : Filled}
    {fuel : Nat} (hfill : Settles (fillAll table declarations fuel path entry entry.target args
      { props := [] }) f) :
    Settles (lower table declarations (fuel + 3) path (some (.call r entry.target "" args [])))
      [.element { widget := entry.source, props := f.props } f.children] := by
  have hwrap : Motion.ofWrappers (.call r entry.target "" args []) = .ok none := by
    simp only [Motion.ofWrappers, h.not_wrapper, Bool.not_false, if_true]
    rfl
  have himplied : (Assoc.get? entry.targetAliases entry.target).getD [] = [] := by
    simp [h.no_aliases, Assoc.get?]
  have hmapped : Settles (lowerMapped table declarations (fuel + 1) path entry entry.target args)
      (f.props, f.children) := by
    rw [lowerMapped]
    simp only [himplied, List.map_nil]
    refine hfill.bind ?_
    have hmode := h.not_wrapped
    cases hm : entry.textMode with
    | wrap => exact absurd hm hmode
    | positional => exact settles_pure _
    | none => exact settles_pure _
  have hcall : Settles (lowerCall table declarations (fuel + 2) path entry.target args [])
      [.element { widget := entry.source, props := f.props } f.children] := by
    rw [lowerCall]
    simp only [beq_iff_eq, h.not_container, if_false, h.backward]
    exact (settles_pure none).bind (hmapped.bind (settles_pure _))
  rw [lower]
  simp only [h.upper, Bool.not_true, Bool.false_eq_true, if_false]
  refine (settles_lift hwrap).bind ?_
  simp only [h.not_router, Bool.not_false, if_true]
  exact hcall

/-! ## Sources -/

theorem classesOf_singleton {m : Member} (h : m.kind ≠ .classLike) : classesOf [m] = [] := by
  have hkind : (m.kind == .classLike) = false := by simpa using h
  simp [classesOf, hkind, Assoc.ofPairs]

/-- A source that is a call is read as the element that the call becomes. -/
theorem widgetSource_of_call {text : String} {s : Source} (hread : Source.read text = .ok s)
    {args : Args} {comments : List String}
    (hexpr : Range.expr ⟨s.trees, none⟩ = .ok (.call ⟨s.trees, none⟩ callee "" args comments))
    (hinvokes : Range.Invokes ⟨s.trees, none⟩ callee) (hupper : startsUpper callee = true)
    {e : Element} {cs : List Node}
    (hlower : Settles (lower table [] (8 * TokenTree.sizeOf' s.trees + 8) "root"
      (some (.call ⟨s.trees, none⟩ callee "" args comments))) [.element e cs]) :
    widgetSource table text = .ok { root := .element e cs } := by
  have hword : callee ∉ declarationWords := by
    have hlower : ∀ w ∈ declarationWords, startsUpper w = false := by decide
    intro hc
    simp [hlower callee hc] at hupper
  obtain ⟨m, hmembers, hkind⟩ := hinvokes.members hword (s := s) rfl
  obtain ⟨n, o, vs, c, htrees, -, -⟩ := hinvokes
  have htrees : s.trees = [.leaf n, .group o vs c] := htrees
  have hall : s.all.withoutSemicolon = ⟨s.trees, none⟩ := by
    simp [Range.withoutSemicolon, Source.all, htrees]
  have hroot : (lowerRoot table [] (.call ⟨s.trees, none⟩ callee "" args comments)).run {} =
      .ok ((e, cs), {}) := by
    rw [lowerRoot]
    simp only [Expr.range, StateT.run_map, hlower {}]
    rfl
  have hfirst : s.all.first? = some n := by simp [Source.all, Range.first?, htrees, TokenTree.first]
  have hwidget : widgetExpression table s = .ok { root := .element e cs } := by
    simp only [widgetExpression, hfirst, hall, hexpr, hroot, bind, Except.bind]
    rfl
  rw [← hwidget]
  simp only [widgetSource, hread, hmembers, classesOf_singleton hkind, bind, Except.bind]
  rfl

/-- A source that is read as the expression of an element is read as the element. -/
theorem widgetSource_of_reads {text : String} {e : Element} {cs : List Node}
    (h : Reads text (Lowers table [] (.element e cs))) :
    widgetSource table text = .ok { root := .element e cs } := by
  obtain ⟨ps, hs, -, hm⟩ := h
  obtain ⟨s, hread, hshow, -, -⟩ := read_spellAll hs.sound "" (by decide)
  have hsource : Source.read text = .ok s := by
    rw [← hread, ← hs.toList_eq]
    simp
  obtain ⟨x, hx, hrange, hlowers⟩ := hm s.trees hshow.matches none
    (3 * TokenTree.sizeOf' s.trees + 3) (by simp only; omega)
  obtain ⟨r, callee, args, rfl, hinvokes, hupper⟩ := hlowers.call
  have hr : r = ⟨s.trees, none⟩ := hrange
  subst hr
  exact widgetSource_of_call hsource hx hinvokes hupper
    (hlowers.lower (8 * TokenTree.sizeOf' s.trees + 8) (by simp only [Expr.range]; omega) "root")

end WidgetBridge.Reading
