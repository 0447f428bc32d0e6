import WidgetBridge.Proofs.Mapping.Table
import WidgetBridge.Proofs.Reading.WidgetTree
import WidgetBridge.Proofs.RoundTrip.TextRun
import WidgetBridge.Proofs.WidgetGrammar.Constants
import WidgetBridge.Proofs.Writing.Widget
import WidgetBridge.Proofs.Writing.WidgetCode

/-!
# Trees that survive widget source

`PlainTree` is a language of trees of any depth: stacks of elements, boxes around at most one
element, and texts with slots.  What is written for such a tree is read back as the tree, without
any finding (`widgetSource_widgetNode`).  The induction is over the tree, and carries along that the
text written for a tree is an expression which is lowered to the tree, wherever it stands.
-/

namespace WidgetBridge.RoundTrip

open WidgetBridge.Text WidgetBridge.WidgetGrammar WidgetBridge.Mapping WidgetBridge.Writing
  WidgetBridge.Reading

/-- The props of the boxes, all of which hold integers. -/
def boxProps : String → Option (List String)
  | "Center" => some []
  | "Expanded" => some ["flex"]
  | "SizedBox" => some ["width", "height"]
  | _ => none

/-- A tree of stacks, boxes and texts. -/
inductive PlainTree : Node → Prop
  | stack {cs : List Node} (h : ∀ c ∈ cs, PlainTree c) :
    PlainTree (.element { widget := "Stack" } cs)
  | box {widget : String} {names : List String} {props : Props} {cs : List Node}
    (hwidget : boxProps widget = some names) (hkeys : (Assoc.keys props).Nodup)
    (hprops : ∀ p ∈ props, p.1 ∈ names ∧ ∃ i, p.2 = .literal (.int i))
    (hlen : cs.length ≤ 1) (h : ∀ c ∈ cs, PlainTree c) :
    PlainTree (.element { widget, props } cs)
  | text {run : List Node} (h : IsRun run) : PlainTree (.element { widget := "Text" } run)

theorem PlainTree.isElement {n : Node} (h : PlainTree n) : n.isElement = true := by
  cases h <;> rfl

/-! ## The entries of the widgets -/

/-- The bundled entry of a widget. -/
def entryFor (widget : String) : Entry := (Bundled.table.get? widget).getD default

/-- A widget of the bundled table that has the same name on both sides. -/
structure Kept (widget : String) : Prop where
  get : Bundled.table.get? widget = some (entryFor widget)
  source : (entryFor widget).source = widget
  target : (entryFor widget).target = widget
  no_layout : (entryFor widget).layout = none
  constructs : Constructs Bundled.table (entryFor widget)
  callable : isCallable widget = true
  not_router : widget ≠ "Router"
  not_unknown : widget ≠ unknownWidget
  not_column : widget ≠ "Column"

theorem kept_of_mem {widget : String}
    (h : widget ∈ ["Stack", "Center", "Expanded", "SizedBox", "Text"]) : Kept widget := by
  simp only [List.mem_cons, List.not_mem_nil, or_false] at h
  rcases h with rfl | rfl | rfl | rfl | rfl <;>
    exact ⟨rfl, rfl, rfl, rfl,
      ⟨rfl, Table.backward?_of_built? rfl, rfl, rfl, rfl, by decide, by decide⟩, rfl, by decide,
      by decide, by decide⟩

theorem Kept.maps {widget : String} (h : Kept widget) {s : Setting}
    (ht : s.environment.table = Bundled.table) : Maps s (entryFor widget) where
  get := by rw [ht, h.source, h.get]
  not_router := by rw [h.source]; exact h.not_router
  not_placeholder := by rw [h.source]; exact h.not_unknown
  no_layout := h.no_layout

/-- A prop that a widget has under the same name on both sides. -/
structure KeptProp (widget name : String) : Prop where
  forth : CarriesOver (entryFor widget) name
  back : CarriesBack (entryFor widget) name
  is_name : isName name = true

theorem boxProps_cases {widget : String} {names : List String} (h : boxProps widget = some names) :
    widget = "Center" ∧ names = [] ∨ widget = "Expanded" ∧ names = ["flex"] ∨
      widget = "SizedBox" ∧ names = ["width", "height"] := by
  unfold boxProps at h
  split at h <;> simp_all

/-- What is needed of the entry of a box. -/
structure Box (widget : String) : Prop where
  kept : Kept widget
  flat : Flat (entryFor widget)
  arity : (entryFor widget).arity = .single
  slot : (entryFor widget).childSlot = "child"

theorem box_of_boxProps {widget : String} {names : List String} (h : boxProps widget = some names) :
    Box widget ∧ ∀ name ∈ names, KeptProp widget name := by
  have prop : ∀ w n, CarriesOver (entryFor w) n → CarriesBack (entryFor w) n → isName n = true →
      KeptProp w n := fun _ _ => KeptProp.mk
  rcases boxProps_cases h with ⟨rfl, rfl⟩ | ⟨rfl, rfl⟩ | ⟨rfl, rfl⟩
  · exact ⟨⟨kept_of_mem (by decide), ⟨rfl, rfl⟩, rfl, rfl⟩, by simp⟩
  · refine ⟨⟨kept_of_mem (by decide), ⟨rfl, rfl⟩, rfl, rfl⟩, ?_⟩
    rw [List.forall_mem_singleton]
    exact prop _ _ ⟨fun _ _ => rfl, fun _ _ => rfl, rfl, by decide⟩
      ⟨fun _ _ => rfl, by decide, by decide⟩ rfl
  · refine ⟨⟨kept_of_mem (by decide), ⟨rfl, rfl⟩, rfl, rfl⟩, ?_⟩
    rw [List.forall_mem_cons, List.forall_mem_singleton]
    exact ⟨prop _ _ ⟨fun _ _ => rfl, fun _ _ => rfl, rfl, by decide⟩
        ⟨fun _ _ => rfl, by decide, by decide⟩ rfl,
      prop _ _ ⟨fun _ _ => rfl, fun _ _ => rfl, rfl, by decide⟩
        ⟨fun _ _ => rfl, by decide, by decide⟩ rfl⟩

/-! ## Arguments -/

/-- A text that starts with a name is no comment. -/
theorem isComment_name_append {name : String} (h : isName name = true) (rest : String) :
    isComment (name ++ rest) = false := by
  obtain ⟨c, cs, hs, hc, -⟩ := isName_iff.1 h
  refine isComment_of_head fun d hd => ?_
  rw [String.toList_append, hs, List.cons_append, List.head?_cons] at hd
  cases hd
  rintro rfl
  revert hc
  decide

/-- An integer prop is written as a named argument, which is read as the prop. -/
theorem phrase_prop {p : String × PropValue} (hn : isName p.1 = true)
    (hi : ∃ i, p.2 = .literal (.int i)) :
    Phrase (namedText (argumentOf p)) (ReadsArg (propSpec p)) := by
  obtain ⟨name, v⟩ := p
  obtain ⟨i, rfl⟩ := hi
  refine readsArg_named (Reads.imp (reads_int i) ?_) hn
  rintro _ ⟨r, rfl⟩
  rfl

theorem phrase_props {props : Props}
    (h : ∀ p ∈ props, isName p.1 = true ∧ ∃ i, p.2 = .literal (.int i)) :
    List.Forall₂ Phrase (props.map (namedText ∘ argumentOf))
      ((props.map propSpec).map ReadsArg) := by
  rw [List.map_map, List.forall₂_map_left_iff, List.forall₂_map_right_iff, List.forall₂_same]
  exact fun p hp => phrase_prop (h p hp).1 (h p hp).2

theorem length_le_sizeOfExprs (es : List Expr) : es.length ≤ sizeOfExprs es := by
  induction es with
  | nil => simp
  | cons e es ih =>
    rw [List.length_cons, sizeOfExprs_cons]
    omega

theorem argsMeet_append {specs specs' : List ArgSpec} {args : Args}
    (h : ArgsMeet (specs ++ specs') args) :
    ∃ as bs, args = as ++ bs ∧ ArgsMeet specs as ∧ ArgsMeet specs' bs := by
  induction specs generalizing args with
  | nil => exact ⟨[], args, rfl, List.Forall₂.nil, h⟩
  | cons spec specs ih =>
    obtain ⟨a, rest, ha, hrest, rfl⟩ := List.forall₂_cons_left_iff.1 h
    obtain ⟨as, bs, rfl, has, hbs⟩ := ih hrest
    exact ⟨a :: as, bs, rfl, List.Forall₂.cons ha has, hbs⟩

/-! ## Reading -/

/-- An expression that is lowered to nodes in the place of children. -/
def LowersTo (ns : List Node) (e : Expr) : Prop :=
  plainColumn? e = none ∧ ∀ fuel, 8 * TokenTree.sizeOf' e.range.trees + 1 ≤ fuel → ∀ path,
    Settles (lower Bundled.table [] fuel path (some e)) ns

/-- An expression that is lowered to one node of the bundled table. -/
abbrev LowersOne : Node → Expr → Prop := Lowers Bundled.table []

theorem lowersTo_one {n : Node} {e : Expr} (h : LowersOne n e) : LowersTo [n] e :=
  ⟨h.not_column, h.lower⟩

theorem lowersTo_list {ns : List Node} {e : Expr} (h : IsList (ns.map LowersOne) e) :
    LowersTo ns e := by
  refine ⟨?_, fun fuel hf path => settles_lower_list h hf⟩
  obtain ⟨r, items, rfl, -⟩ := h
  rfl

/-- The argument that holds some nodes: none, or one that is named for children. -/
def IsSlot (ns : List Node) : List ArgSpec → Prop
  | [] => ns = []
  | [(some name, P)] => (name = "child" ∨ name = "children") ∧ ∀ e, P e → LowersTo ns e
  | _ => False

theorem settles_fillAll_slot {entry : Entry} (hflat : Flat entry) {path callee : String}
    {specs : List ArgSpec} {ns : List Node} (hslot : IsSlot ns specs) {args : Args}
    (ha : ArgsMeet specs args) {fuel : Nat} (hf : 8 * sizeOfExprs (args.map (·.2)) + 3 ≤ fuel)
    (props : Props) :
    Settles (fillAll Bundled.table [] fuel path entry callee args { props })
      { props, children := ns } := by
  match specs, hslot with
  | [], hns =>
    subst hns
    cases ha
    obtain ⟨fuel, rfl⟩ := Nat.exists_eq_succ_of_ne_zero (by omega : fuel ≠ 0)
    exact settles_fillAll_nil fuel _
  | [(some name, P)], ⟨hname, hP⟩ =>
    obtain ⟨⟨n, e⟩, rest, ⟨hn, he⟩, hrest, rfl⟩ := List.forall₂_cons_left_iff.1 ha
    have hn : n = some name := hn
    subst hn
    cases hrest
    simp only [List.map_cons, List.map_nil, sizeOfExprs_cons, sizeOfExprs_nil] at hf
    obtain ⟨fuel, rfl⟩ : ∃ k, fuel = k + 2 := ⟨fuel - 2, by omega⟩
    obtain ⟨hcolumn, hlower⟩ := hP e he
    exact settles_fillAll_named
      (settles_fillNamed_child hflat hname hcolumn (hlower fuel (by omega) path) _)
      (settles_fillAll_nil fuel _)

/-- A call with props and children is lowered to the element that has them. -/
theorem lowers_call {widget : String} (hk : Kept widget) (hflat : Flat (entryFor widget))
    {props : Props} (hprops : ∀ p ∈ props, KeptProp widget p.1) (hkeys : (Assoc.keys props).Nodup)
    {specs : List ArgSpec} {ns : List Node} (hslot : IsSlot ns specs) {e : Expr}
    (he : IsCall widget (props.map propSpec ++ specs) e) :
    LowersOne (.element { widget, props } ns) e := by
  obtain ⟨r, args, rfl, hinvokes, hargs, hsize⟩ := he
  have hupper : startsUpper widget = true := by
    have := hk.constructs.upper
    rwa [hk.target] at this
  refine ⟨⟨r, widget, args, rfl, hinvokes, hupper⟩, ?_, fun fuel hf path => ?_⟩
  · have := hk.not_column
    unfold plainColumn?
    split
    · rename_i h
      cases h
      exact absurd rfl this
    · rfl
  · obtain ⟨as, bs, rfl, has, hbs⟩ := argsMeet_append hargs
    have hlen : props.length ≤ sizeOfExprs (as.map (·.2)) := by
      have := length_le_sizeOfExprs (as.map (·.2))
      rwa [List.length_map, ← has.length_eq, List.length_map] at this
    have happ : sizeOfExprs ((as ++ bs).map (·.2)) =
        sizeOfExprs (as.map (·.2)) + sizeOfExprs (bs.map (·.2)) := by
      simp [sizeOfExprs_append]
    simp only [Expr.range] at hf
    obtain ⟨k, rfl⟩ : ∃ k, fuel = k + props.length + 3 := ⟨fuel - props.length - 3, by omega⟩
    have hchildren : Settles (fillAll Bundled.table [] k path (entryFor widget)
        (entryFor widget).target bs { props }) { props, children := ns } :=
      settles_fillAll_slot hflat hslot hbs (by omega) props
    have hfill := settles_fillAll_props (f := { props := [] }) hflat
      (fun p hp => (hprops p hp).back) has (by simpa using hkeys) (by omega) hchildren
    have hlower := settles_lower_mapped hk.constructs (r := r) hfill
    rwa [hk.source, hk.target] at hlower

/-- The argument of a text: none for an empty run, or the literal of the run. -/
def textSpecs (ns : List Node) : List ArgSpec :=
  if ns.isEmpty then [] else [(none, fun e => ∃ r, e = .string r (ns.map partOf))]

theorem lowers_text {ns : List Node} (h : IsRun ns) {e : Expr}
    (he : IsCall "Text" (textSpecs ns) e) :
    LowersOne (.element { widget := "Text" } ns) e := by
  have hk : Kept "Text" := kept_of_mem (by decide)
  obtain ⟨r, args, rfl, hinvokes, hargs, hsize⟩ := he
  refine ⟨⟨r, "Text", args, rfl, hinvokes, by decide⟩, rfl, fun fuel hf path => ?_⟩
  simp only [Expr.range] at hf
  obtain ⟨k, rfl⟩ : ∃ k, fuel = k + 2 + 3 := ⟨fuel - 5, by omega⟩
  have hfill : ∃ n, Settles (fillAll Bundled.table [] (k + 2) path (entryFor "Text")
      (entryFor "Text").target args { props := [] })
      { props := [], children := ns, positional := n } := by
    unfold textSpecs at hargs
    split_ifs at hargs with hempty
    · rw [List.isEmpty_iff] at hempty
      subst hempty
      cases hargs
      exact ⟨0, settles_fillAll_nil (k + 1) _⟩
    · obtain ⟨⟨n, e⟩, rest, ⟨hn, r', he⟩, hrest, rfl⟩ := List.forall₂_cons_left_iff.1 hargs
      have hn : n = none := hn
      have he : e = .string r' (ns.map partOf) := he
      subst hn he
      cases hrest
      have hmode : (entryFor "Text").textMode = .positional := rfl
      refine ⟨1, ?_⟩
      rw [fillAll]
      simp only [hmode, beq_self_eq_true, Bool.and_self, if_true, textNodes_of_settled h.settled]
      exact (settles_pure _).bind (settles_fillAll_nil k _)
  obtain ⟨n, hfill⟩ := hfill
  exact settles_lower_mapped hk.constructs (r := r) hfill

/-! ## Writing -/

/-- A setting with the bundled table, which indents by spaces. -/
structure Standard (s : Setting) : Prop where
  table : s.environment.table = Bundled.table
  indent : isIndent s.indent = true

variable {s : Setting}

/-- The text of a node is read as an expression that is lowered to the node. -/
def Trips (s : Setting) (n : Node) : Prop :=
  ∀ path, Yields (widgetNode s path n) fun text => Reads text (LowersOne n)

theorem yields_widgetNodes {cs : List Node} (h : ∀ c ∈ cs, Trips s c) (path : String)
    (index : Nat) :
    Yields (widgetNodes s path index cs) fun texts => texts.length = cs.length ∧
      List.Forall₂ Reads texts (cs.map LowersOne) := by
  induction cs generalizing index with
  | nil => exact yields_pure ⟨rfl, List.Forall₂.nil⟩
  | cons c cs ih =>
    rw [widgetNodes]
    refine (h c List.mem_cons_self _).bind fun text htext => ?_
    refine (ih (fun d hd => h d (List.mem_cons_of_mem _ hd)) _).bind fun texts htexts => ?_
    exact yields_pure ⟨by simp [htexts.1], List.Forall₂.cons htext htexts.2⟩

/-- What is known of the argument that holds the children of a widget. -/
def slotSpecs (widget : String) (cs : List Node) : List ArgSpec :=
  if (entryFor widget).childSlot == "children" then
    [(some "children", IsList (cs.map LowersOne))]
  else cs.map fun c => (some "child", LowersOne c)

theorem phrase_slot {widget : String} (hslot : (entryFor widget).childSlot = "children" ∨
    (entryFor widget).childSlot = "child") {indent : String} (hi : isIndent indent = true)
    {texts : List String} {cs : List Node} (h : List.Forall₂ Reads texts (cs.map LowersOne)) :
    List.Forall₂ Phrase (slotText (entryFor widget) indent texts)
      ((slotSpecs widget cs).map ReadsArg) := by
  unfold slotText slotSpecs
  rcases hslot with hslot | hslot
  · simp only [hslot, beq_self_eq_true, if_true]
    have hlist : Phrase ("children" ++ ": " ++ listText texts indent) _ :=
      readsArg_named (reads_listText h hi) rfl
    exact List.Forall₂.cons hlist .nil
  · have hne : ("child" == "children") = false := by decide
    simp only [hslot, hne, Bool.false_eq_true, if_false, List.map_map]
    rw [List.forall₂_map_left_iff, List.forall₂_map_right_iff]
    rw [List.forall₂_map_right_iff] at h
    exact h.imp fun text c hc => readsArg_named hc (by decide)

theorem isComment_slot {widget : String} (hslot : (entryFor widget).childSlot = "children" ∨
    (entryFor widget).childSlot = "child") (indent : String) (texts : List String) :
    ∀ a ∈ slotText (entryFor widget) indent texts, isComment a = false := by
  intro a ha
  unfold slotText at ha
  refine isComment_of_head fun c hc => ?_
  have hhead : c = 'c' := by
    rcases hslot with hslot | hslot
    · simp only [hslot, beq_self_eq_true, if_true, List.mem_singleton] at ha
      subst ha
      simpa [eq_comm] using hc
    · have hne : ("child" == "children") = false := by decide
      simp only [hslot, hne, Bool.false_eq_true, if_false, List.mem_map] at ha
      obtain ⟨item, -, rfl⟩ := ha
      simpa [eq_comm] using hc
  rw [hhead]
  decide

theorem isSlot_slotSpecs {widget : String} {cs : List Node}
    (h : (entryFor widget).childSlot = "children" ∨ cs.length ≤ 1) :
    IsSlot cs (slotSpecs widget cs) := by
  unfold slotSpecs
  split_ifs with hslot
  · exact ⟨Or.inr rfl, fun e => lowersTo_list⟩
  · match cs, h.resolve_left (by simpa using hslot) with
    | [], _ => rfl
    | [c], _ => exact ⟨Or.inl rfl, fun e => lowersTo_one⟩

/-- An element of a kept widget with props and children that survive survives. -/
theorem trips_element (hs : Standard s) {widget : String} (hk : Kept widget)
    (hflat : Flat (entryFor widget))
    (hslot : (entryFor widget).childSlot = "children" ∨ (entryFor widget).childSlot = "child")
    {props : Props} (hprops : ∀ p ∈ props, KeptProp widget p.1 ∧ ∃ i, p.2 = .literal (.int i))
    (hkeys : (Assoc.keys props).Nodup) {cs : List Node} (helem : ∀ c ∈ cs, c.isElement = true)
    (harity : (entryFor widget).arity ≠ .leaf ∧
      ((entryFor widget).arity = .single → cs.length ≤ 1))
    (hlen : (entryFor widget).childSlot = "children" ∨ cs.length ≤ 1) (h : ∀ c ∈ cs, Trips s c) :
    Trips s (.element { widget, props } cs) := by
  intro path
  have helement := yields_widgetElement path (hk.maps hs.table)
    (fun p hp => (hprops p hp).1.forth) helem (by rcases hslot with h | h <;> simp [h]) harity hlen
    (yields_widgetNodes h path 0)
  rw [hk.source, hk.target] at helement
  rw [widgetNode]
  refine helement.bind ?_
  rintro _ ⟨texts, -, htexts, rfl⟩
  have hphrases : List.Forall₂ Phrase
      (props.map (namedText ∘ argumentOf) ++ slotText (entryFor widget) s.indent texts)
      ((props.map propSpec ++ slotSpecs widget cs).map ReadsArg) := by
    rw [List.map_append]
    exact List.rel_append (phrase_props fun p hp => ⟨(hprops p hp).1.is_name, (hprops p hp).2⟩)
      (phrase_slot hslot hs.indent htexts)
  have hcomment : ∀ a ∈ props.map (namedText ∘ argumentOf) ++
      slotText (entryFor widget) s.indent texts, isComment a = false := by
    intro a ha
    rcases List.mem_append.1 ha with ha | ha
    · obtain ⟨p, hp, rfl⟩ := List.mem_map.1 ha
      have := isComment_name_append (hprops p hp).1.is_name (": " ++ WidgetGrammar.ofProp p.2)
      rwa [← String.append_assoc] at this
    · exact isComment_slot hslot _ _ a ha
  exact yields_pure (Reads.imp (reads_callText hk.callable hphrases hcomment hs.indent) fun e he =>
    lowers_call hk hflat (fun p hp => (hprops p hp).1) hkeys (isSlot_slotSpecs hlen) he)

/-- Texts and slots are written without fail. -/
theorem yields_widgetNodes_run {ns : List Node} (h : ∀ n ∈ ns, n.isElement = false) (path : String)
    (index : Nat) : Yields (widgetNodes s path index ns) fun _ => True := by
  induction ns generalizing index with
  | nil => exact yields_pure trivial
  | cons n ns ih =>
    have hn : Yields (widgetNode s (Node.childPath path index) n) fun _ => True := by
      cases n with
      | text v => exact yields_pure trivial
      | slot source => exact yields_pure trivial
      | element e cs => exact absurd (h _ List.mem_cons_self) (by simp [Node.isElement])
    rw [widgetNodes]
    refine hn.bind fun _ _ => ?_
    exact (ih (fun m hm => h m (List.mem_cons_of_mem _ hm)) _).bind fun _ _ => yields_pure trivial

theorem trips_text (hs : Standard s) {ns : List Node} (h : IsRun ns) :
    Trips s (.element { widget := "Text" } ns) := by
  intro path
  have hk : Kept "Text" := kept_of_mem (by decide)
  have helement := yields_textElement path (hk.maps hs.table) rfl rfl rfl h.not_element
    (yields_widgetNodes_run (s := s) h.not_element path 0)
  rw [widgetNode]
  refine helement.bind ?_
  rintro _ rfl
  have hphrases : List.Forall₂ Phrase (if ns.isEmpty then [] else [textLiteral ns])
      ((textSpecs ns).map ReadsArg) := by
    unfold textSpecs
    split_ifs
    · exact .nil
    · exact .cons (reads_textLiteral h) .nil
  have hcomment : ∀ a ∈ (if ns.isEmpty then [] else [textLiteral ns]), isComment a = false := by
    intro a ha
    split_ifs at ha
    · cases ha
    · rw [List.mem_singleton] at ha
      subst ha
      refine isComment_of_head fun c hc => ?_
      have hquote : c = '\'' := by simpa [textLiteral_eq, quoted, eq_comm] using hc
      rw [hquote]
      decide
  exact yields_pure (Reads.imp (reads_callText hk.callable hphrases hcomment hs.indent) fun e he =>
    lowers_text h he)

/-- Every plain tree is written as an expression that is lowered to it. -/
theorem PlainTree.trips (hs : Standard s) {n : Node} (h : PlainTree n) : Trips s n := by
  induction h with
  | @stack cs h ih =>
    exact trips_element hs (kept_of_mem (by decide)) ⟨rfl, rfl⟩ (Or.inl rfl) (by simp) (by simp)
      (fun c hc => (h c hc).isElement) ⟨by decide, nofun⟩ (Or.inl rfl) ih
  | box hwidget hkeys hprops hlen h ih =>
    obtain ⟨hbox, hnames⟩ := box_of_boxProps hwidget
    exact trips_element hs hbox.kept hbox.flat (Or.inr hbox.slot)
      (fun p hp => ⟨hnames p.1 (hprops p hp).1, (hprops p hp).2⟩) hkeys
      (fun c hc => (h c hc).isElement) ⟨by simp [hbox.arity], fun _ => hlen⟩ (Or.inr hlen) ih
  | text h => exact trips_text hs h

/-! ## The round trip -/

/-- What is written for a plain tree is read back as the tree, and neither way warns. -/
theorem widgetSource_widgetNode (hs : Standard s) {n : Node} (hn : PlainTree n) (path : String)
    (d : Draft) : ∃ text d', (widgetNode s path n).run.run d = (.ok text, d') ∧
      d'.warnings = d.warnings ∧ widgetSource Bundled.table text = .ok { root := n } := by
  obtain ⟨text, d', hrun, hwarn, hreads⟩ := hn.trips hs path d
  refine ⟨text, d', hrun, hwarn, ?_⟩
  cases n with
  | element e cs => exact widgetSource_of_reads hreads
  | text v => cases hn
  | slot source => cases hn

/-- A stack with a sized box around a centered text, which holds quotes and an interpolation, and
with an empty box. -/
def sampleTree : Node :=
  .element { widget := "Stack" } [
    .element { widget := "SizedBox",
               props := [("height", .literal (.int (-2))), ("width", .literal (.int 40))] }
      [.element { widget := "Center" }
        [.element { widget := "Text" } [.text "it's $5\n", .slot "user_1", .text "\\"]]],
    .element { widget := "Expanded", props := [("flex", .literal (.int 3))] } []]

theorem plainTree_sampleTree : PlainTree sampleTree := by
  have htext : PlainTree
      (.element { widget := "Text" } [.text "it's $5\n", .slot "user_1", .text "\\"]) :=
    .text ⟨by decide, nofun, by decide, by decide, nofun, trivial⟩
  have hcenter : PlainTree (.element { widget := "Center" }
      [.element { widget := "Text" } [.text "it's $5\n", .slot "user_1", .text "\\"]]) :=
    .box rfl (by decide) nofun (by decide) (by simpa using htext)
  refine .stack (List.forall_mem_cons.2 ⟨?_, List.forall_mem_singleton.2 ?_⟩)
  · refine .box rfl (by decide) ?_ (by decide) (by simpa using hcenter)
    exact List.forall_mem_cons.2 ⟨⟨by decide, _, rfl⟩,
      List.forall_mem_singleton.2 ⟨by decide, _, rfl⟩⟩
  · exact .box rfl (by decide) (List.forall_mem_singleton.2 ⟨by decide, _, rfl⟩)
      (by decide) (by simp)

/-- The round trip of the sample in the default setting. -/
theorem widgetSource_widgetNode_sampleTree :
    let s : Setting := { environment := {}, framework := .widget, file := "app.dart" }
    Standard s ∧ PlainTree sampleTree ∧
      ∃ text d', (widgetNode s "root" sampleTree).run.run {} = (.ok text, d') ∧ d'.warnings = [] ∧
        widgetSource Bundled.table text = .ok { root := sampleTree } := by
  have hs : Standard { environment := {}, framework := .widget, file := "app.dart" } :=
    ⟨rfl, by decide⟩
  exact ⟨hs, plainTree_sampleTree, widgetSource_widgetNode hs plainTree_sampleTree "root" {}⟩

end WidgetBridge.RoundTrip
