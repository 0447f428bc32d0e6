import WidgetBridge.Proofs.Writing.Draft
import WidgetBridge.Writing.Widget

/-!
# Writing mapped elements

What is written for an element of a mapped widget: a call of the target with the props as named
arguments and the children as the last argument (`yields_widgetElement`), or with a run of text as
the first one (`yields_textElement`).
-/

namespace WidgetBridge.Writing

open WidgetBridge.Text WidgetBridge.Mapping

/-- A prop that becomes a named argument of the same name with the same value. -/
structure CarriesOver (entry : Entry) (name : String) : Prop where
  carry : ∀ v path, entry.carryProp name v .forward path = .ok ((name, v), [])
  add : ∀ (a : Arguments) v, a.add entry name v =
    .ok { a with named := a.named ++ [(name, WidgetGrammar.ofProp v)] }
  not_spread : hasHead name "..." = false
  not_key : name ≠ "key"

/-- A prop as a named argument. -/
def argumentOf (p : String × PropValue) : String × String := (p.1, WidgetGrammar.ofProp p.2)

variable {entry : Entry} {path : String}

theorem yields_argumentsFor {props : Props} (h : ∀ p ∈ props, CarriesOver entry p.1)
    (a : Arguments) : Yields (argumentsFor entry path a props)
      (· = { a with named := a.named ++ props.map argumentOf }) := by
  induction props generalizing a with
  | nil => exact yields_pure (by simp)
  | cons p props ih =>
    obtain ⟨name, v⟩ := p
    have hp := h (name, v) List.mem_cons_self
    rw [argumentsFor]
    simp only [hp.not_spread, Bool.false_eq_true, if_false, beq_iff_eq, hp.not_key]
    refine (yields_attempt (hp.carry v path) rfl).bind ?_
    rintro _ rfl
    refine yields_warn_nil.bind fun _ _ => ?_
    refine (yields_attempt (hp.add a v) rfl).bind ?_
    rintro _ rfl
    refine (ih (fun q hq => h q (List.mem_cons_of_mem _ hq)) _).imp ?_
    rintro _ rfl
    simp [argumentOf]

/-- An entry by which elements of a widget are written. -/
structure Maps (s : Setting) (entry : Entry) : Prop where
  get : s.environment.table.get? entry.source = some entry
  not_router : entry.source ≠ "Router"
  not_placeholder : entry.source ≠ unknownWidget
  no_layout : entry.layout = none

theorem Maps.entryOf?_eq {s : Setting} (h : Maps s entry) (props : Props) :
    Validation.entryOf? s.environment.table { widget := entry.source, props } = some entry := by
  have hplace : Element.isPlaceholder { widget := entry.source, props } = false := by
    simpa [Element.isPlaceholder] using h.not_placeholder
  simp [Validation.entryOf?, hplace, h.get]

theorem render_named (named : List (String × String)) (trailing : List String) :
    Arguments.render { named } entry trailing = named.map namedText ++ trailing := by
  simp [Arguments.render, Arguments.withNote]

/-- The argument that holds the children of a widget. -/
def slotText (entry : Entry) (indent : String) (items : List String) : List String :=
  if entry.childSlot == "children" then ["children: " ++ listText items indent]
  else items.map fun item => entry.childSlot ++ ": " ++ item

theorem mappedCall_slot {s : Setting} (hl : entry.layout = none) (hslot : entry.childSlot ≠ "none")
    (named : List (String × String)) {items : List String}
    (hitems : entry.childSlot = "children" ∨ items.length ≤ 1) :
    ∃ slot, childArgument entry { named } s.indent items = .ok slot ∧
      mappedCall s entry { named } slot =
        callText entry.target (named.map namedText ++ slotText entry s.indent items) s.indent := by
  have hcall : ∀ arg : String × String, mappedCall s entry { named } (some arg) =
      callText entry.target (named.map namedText ++ [namedText arg]) s.indent := by
    rintro ⟨name, text⟩
    unfold mappedCall
    split
    · rename_i h
      cases h
    · rename_i h
      cases h
      simp [hl, render_named, namedText]
    · rename_i h
      cases h
      rw [render_named]
  by_cases hc : entry.childSlot = "children"
  · refine ⟨some ("children", listText items s.indent), by simp [childArgument, hc], ?_⟩
    rw [hcall]
    simp [slotText, hc, namedText]
  · have hsingle : entry.singleSlot? = some entry.childSlot := by
      simp [Entry.singleSlot?, hc, hslot]
    match items, hitems.resolve_left hc with
    | [], _ =>
      refine ⟨none, by simp [childArgument, hc, hsingle], ?_⟩
      simp [mappedCall, render_named, slotText, hc]
    | [item], _ =>
      refine ⟨some (entry.childSlot, item), by simp [childArgument, hc, hsingle], ?_⟩
      rw [hcall]
      simp [slotText, hc, namedText]

/-- An element whose children are elements is a call with its props and its children. -/
theorem yields_widgetElement {s : Setting} (path : String) (hm : Maps s entry) {props : Props}
    (hp : ∀ p ∈ props, CarriesOver entry p.1) {cs : List Node}
    (hcs : ∀ c ∈ cs, c.isElement = true) (hslot : entry.childSlot ≠ "none")
    (harity : entry.arity ≠ .leaf ∧ (entry.arity = .single → cs.length ≤ 1))
    (hlen : entry.childSlot = "children" ∨ cs.length ≤ 1) {items : Writer (List String)}
    {Q : List String → Prop}
    (hitems : Yields items fun texts => texts.length = cs.length ∧ Q texts) :
    Yields (widgetElement s path { widget := entry.source, props } cs items) fun text =>
      ∃ texts, texts.length = cs.length ∧ Q texts ∧ text = callText entry.target
        (props.map (namedText ∘ argumentOf) ++ slotText entry s.indent texts) s.indent := by
  have hcheck : checkArity entry cs path = .ok () := by
    unfold checkArity
    split
    · rename_i ha
      exact absurd ha harity.1
    · rename_i ha
      have := harity.2 ha
      simp at this
    · rfl
  have hcontent : contentOf entry none cs = .widgets := by
    cases cs with
    | nil => rfl
    | cons c cs => simp [contentOf, hcs c List.mem_cons_self]
  rw [widgetElement]
  simp only [beq_iff_eq, hm.not_router, if_false, hm.entryOf?_eq]
  refine (yields_attempt hcheck (P := fun _ => True) trivial).bind fun _ _ => ?_
  refine (yields_forIn (fun module => yields_need module []) _).bind fun _ _ => ?_
  refine (yields_argumentsFor hp {}).bind ?_
  rintro _ rfl
  rw [placeContent]
  simp only [hcontent, beq_eq_false_iff_ne.2 hslot, Bool.and_false, Bool.false_eq_true, if_false,
    List.nil_append, bind_assoc, pure_bind]
  refine hitems.bind fun texts htexts => ?_
  obtain ⟨slot, hslot, hcall⟩ := mappedCall_slot (s := s) hm.no_layout hslot
    (props.map argumentOf) (hlen.imp_right fun h => htexts.1 ▸ h)
  refine (yields_attempt hslot rfl).bind ?_
  rintro _ rfl
  refine yields_pure ⟨texts, htexts.1, htexts.2, ?_⟩
  rw [hcall, List.map_map]

/-- An element with a run of text is a call with the text for its first argument. -/
theorem yields_textElement {s : Setting} (path : String) (hm : Maps s entry)
    (hmode : entry.textMode = .positional) (hslot : entry.childSlot = "none")
    (harity : entry.arity = .multi) {ns : List Node} (hns : ∀ n ∈ ns, n.isElement = false)
    {items : Writer (List String)} (hitems : Yields items fun _ => True) :
    Yields (widgetElement s path { widget := entry.source } ns items)
      (· = callText entry.target (if ns.isEmpty then [] else [textLiteral ns]) s.indent) := by
  have hcheck : checkArity entry ns path = .ok () := by simp [checkArity, harity]
  rw [widgetElement]
  simp only [beq_iff_eq, hm.not_router, if_false, hm.entryOf?_eq]
  refine (yields_attempt hcheck (P := fun _ => True) trivial).bind fun _ _ => ?_
  refine (yields_forIn (fun module => yields_need module []) _).bind fun _ _ => ?_
  refine (yields_argumentsFor (by simp) {}).bind ?_
  rintro _ rfl
  rw [placeContent]
  cases ns with
  | nil =>
    have hnone : childArgument entry {} s.indent = fun _ => .ok none := by
      funext items
      simp [childArgument, hslot, Entry.singleSlot?]
    simp only [contentOf, List.isEmpty_nil, Bool.not_true, Bool.false_and, Bool.false_eq_true,
      if_false, List.map_nil, List.append_nil, hnone, bind_assoc, pure_bind]
    refine hitems.bind fun _ _ => ?_
    refine (yields_attempt rfl rfl).bind ?_
    rintro _ rfl
    exact yields_pure (by simp [mappedCall, render_named])
  | cons n ns =>
    have hany : (n :: ns).any Node.isElement = false := by
      simpa using hns
    have hcontent : contentOf entry none (n :: ns) = .run (n :: ns) := by
      simp only [contentOf, hany, Bool.false_eq_true, if_false, hmode]
      rfl
    simp only [hcontent, hmode, pure_bind]
    refine yields_pure ?_
    simp [mappedCall, Arguments.render, Arguments.withNote, Arguments.putAt]

end WidgetBridge.Writing
