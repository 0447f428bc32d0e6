import Mathlib.Dynamics.FixedPoints.Basic
import WidgetBridge.Conversion
import WidgetBridge.Proofs.Assoc
import WidgetBridge.Proofs.Text.Layout
import WidgetBridge.Proofs.Writing.Draft

/-!
# Expressions in component source

An expression is written as it stands, but what is written goes through steps of indentation, and
each of them also moves the later lines of an expression (`Held`).  So an expression on one line is
found in the component as it was, and one on several lines only up to the lead of its later lines
(`writeDocument_expressions`): the text of `letter` is on two lines and comes out changed.

The argument follows the writer: `heldAll_tagText` for one element, `returnsAs_componentNode` for a
tree by recursion on it, and `returnsAs_componentDocument` for the layers around the markup.
-/

namespace WidgetBridge.Writing

open WidgetBridge.Text WidgetBridge.Mapping WidgetBridge.Config

/-! ## Text that is held -/

theorem toList_indentTail (s indent : String) :
    (Motion.indentTail s indent).toList = indentChars indent.toList false s.toList := by
  obtain ⟨first, rest, h⟩ := List.exists_cons_of_ne_nil (splitChars_ne_nil '\n' s.toList)
  have hi := intercalate_indent indent.toList s.toList false first rest h
  rw [← hi, Motion.indentTail, lines, splitAt, h, List.map_cons]
  dsimp only
  rw [toList_join, List.map_cons, List.map_map, List.map_map, String.toList_ofList]
  congr 2
  · simp
  · exact List.map_congr_left fun l _ => toList_leadLine indent l

theorem infix_around (a s b : String) : s.toList <:+: (a ++ s ++ b).toList := by
  rw [String.toList_append, String.toList_append]
  exact List.infix_append _ _ _

theorem infix_append_right (a s : String) : s.toList <:+: (a ++ s).toList := by
  rw [String.toList_append]
  exact (List.suffix_append _ _).isInfix

theorem infix_append_left (s b : String) : s.toList <:+: (s ++ b).toList := by
  rw [String.toList_append]
  exact (List.prefix_append _ _).isInfix

/-- A text that holds a source, whose later lines may be indented by some steps. -/
def Held (indent source text : String) : Prop :=
  ∃ k, (Nat.iterate (Motion.indentTail · indent) k source).toList <:+: text.toList

section Held

variable {indent source text : String}

theorem held_of_infix (h : source.toList <:+: text.toList) : Held indent source text := ⟨0, h⟩

theorem Held.occurs (h : Held indent source text) (hn : '\n' ∉ source.toList) :
    source.toList <:+: text.toList := by
  obtain ⟨k, hk⟩ := h
  have hfixed : Function.IsFixedPt (Motion.indentTail · indent) source := by
    apply String.toList_inj.1
    rw [toList_indentTail]
    simpa [indentChars] using indentChars_of_unbroken indent.toList hn []
  rwa [hfixed.iterate k] at hk

theorem Held.mono (h : Held indent source text) {text' : String}
    (ht : text.toList <:+: text'.toList) :
    Held indent source text' := by
  obtain ⟨k, hk⟩ := h
  exact ⟨k, hk.trans ht⟩

theorem Held.indented (h : Held indent source text) :
    Held indent source (indentLines indent text) := by
  obtain ⟨k, hk⟩ := h
  refine ⟨k + 1, ?_⟩
  rw [Function.iterate_succ_apply', toList_indentTail, toList_indentLines]
  exact infix_indentChars hk indent.toList true

theorem Held.around (h : Held indent source text) (a b : String) :
    Held indent source (a ++ text ++ b) :=
  h.mono (infix_around a text b)

theorem Held.joined (h : Held indent source text) {texts : List String} (ht : text ∈ texts)
    (sep : String) : Held indent source (join sep texts) :=
  h.mono (infix_join ht sep)

end Held

/-! ## One element -/

/-- The expressions that a node has of its own. Spread props have none. -/
def ownExpressions : Node → List String
  | .element e _ =>
    e.props.filterMap fun (name, v) => if hasHead name "..." then none else v.source?
  | .slot source => [source]
  | .text _ => []

theorem mem_ownExpressions {e : Element} {cs : List Node} {source : String} :
    source ∈ ownExpressions (.element e cs) ↔
      ∃ name, (name, .expr source) ∈ e.props ∧ hasHead name "..." = false := by
  rw [ownExpressions, List.mem_filterMap]
  constructor
  · rintro ⟨⟨name, v⟩, hmem, hv⟩
    dsimp only at hv
    split_ifs at hv with hname
    cases v with
    | lit kind v => cases hv
    | expr s =>
      cases hv
      exact ⟨name, hmem, by simpa using hname⟩
  · rintro ⟨name, hmem, hname⟩
    exact ⟨_, hmem, by simp [hname, PropValue.source?]⟩

theorem infix_braced (source : String) : source.toList <:+: (braced source).toList :=
  infix_around "\x7b" source "\x7d"

theorem infix_attributeText (name source : String) :
    source.toList <:+: (attributeText name (.expr source)).toList :=
  (infix_braced source).trans (infix_append_right _ _)

/-- An item of the style object is in the object. -/
theorem infix_styleObject {item : String} {items : List String} (h : item ∈ items) :
    item.toList <:+: ("\x7b " ++ join ", " items ++ " \x7d").toList :=
  (infix_join h ", ").trans (infix_around _ _ _)

/-- Every expression is in one of the attributes. -/
theorem exists_attribute {e : Element} (hkeys : (Assoc.keys e.props).Nodup) (entry : Entry)
    {cs : List Node} {source : String} (h : source ∈ ownExpressions (.element e cs)) :
    ∃ a ∈ attributesOf entry e.props, source.toList <:+: a.toList := by
  obtain ⟨name, hmem, hname⟩ := mem_ownExpressions.1 h
  unfold attributesOf
  dsimp only
  set isStyled := fun name => ((entry.findProp? name).map (·.style)).getD false with hisStyled
  generalize hplain : e.props.filterMap (fun (name, v) =>
    if hasHead name "..." then some (braced name)
    else if name == "style" || isStyled name then none
    else some (attributeText name v)) = plain
  generalize hstyled : e.props.filterMap (fun (name, v) =>
    if hasHead name "..." || name == "style" || !isStyled name then none
    else some (ComponentGrammar.key name ++ ": " ++ ComponentGrammar.ofProp v)) = styled
  by_cases hstyle : name = "style"
  · have hget : Assoc.get? e.props "style" = some (.expr source) :=
      Assoc.lookup_of_mem hkeys (hstyle ▸ hmem)
    rw [hget]
    cases styled with
    | nil => exact ⟨_, List.mem_append_right _ (List.mem_singleton_self _), infix_attributeText _ _⟩
    | cons t ts =>
      refine ⟨_, List.mem_append_right _ (List.mem_singleton_self _), ?_⟩
      have hlist :=
        infix_around "[" source (", " ++ ("\x7b " ++ join ", " (t :: ts) ++ " \x7d") ++ "]")
      simp only [← String.append_assoc] at hlist
      simp only [ComponentGrammar.ofProp, ← String.append_assoc]
      exact (hlist.trans (infix_braced _)).trans (infix_append_right _ _)
  · by_cases hown : isStyled name = true
    · have hitem : ComponentGrammar.key name ++ ": " ++ source ∈ styled := by
        rw [← hstyled, List.mem_filterMap]
        exact ⟨_, hmem, by simp [hname, hstyle, hown, ComponentGrammar.ofProp]⟩
      have hobject : source.toList <:+: ("\x7b " ++ join ", " styled ++ " \x7d").toList :=
        (infix_append_right _ _).trans (infix_styleObject hitem)
      obtain ⟨t, ts, rfl⟩ := List.exists_cons_of_ne_nil (List.ne_nil_of_mem hitem)
      cases Assoc.get? e.props "style" with
      | none =>
        refine ⟨_, List.mem_append_right _ (List.mem_singleton_self _), ?_⟩
        exact (hobject.trans (infix_braced _)).trans (infix_append_right _ _)
      | some v =>
        refine ⟨_, List.mem_append_right _ (List.mem_singleton_self _), ?_⟩
        have hlist := hobject.trans (infix_around ("[" ++ ComponentGrammar.ofProp v ++ ", ") _ "]")
        exact (hlist.trans (infix_braced _)).trans (infix_append_right _ _)
    · have hitem : attributeText name (.expr source) ∈ plain := by
        rw [← hplain, List.mem_filterMap]
        exact ⟨_, hmem, by simp [hname, hstyle, hown]⟩
      refine ⟨_, ?_, infix_attributeText name source⟩
      split
      · exact hitem
      all_goals exact List.mem_append_left _ hitem

variable {indent source : String}

/-- Whether attributes are written on lines of their own. -/
def isLong (attributes : List String) : Bool :=
  (join " " attributes).length > attributeWidth || attributes.any fun a => a.toList.contains '\n'

/-- The start tag of an element up to its end. -/
def startTag (indent tag : String) (attributes : List String) : String :=
  if isLong attributes then
    "<" ++ tag ++ "\n" ++ join "\n" (attributes.map (indentLines indent)) ++ "\n"
  else "<" ++ tag ++ String.join (attributes.map (" " ++ ·))

theorem tagText_eq (indent tag : String) (attributes children : List String) (inline : Bool) :
    ∃ closing, tagText indent tag attributes children inline =
      if children.isEmpty then startTag indent tag attributes ++ closing
      else if inline then
        startTag indent tag attributes ++ ">" ++ String.join children ++ "</" ++ tag ++ ">"
      else join "\n"
        ([startTag indent tag attributes ++ ">"] ++ children.map (indentLines indent) ++
        ["</" ++ tag ++ ">"]) := by
  unfold tagText startTag isLong
  dsimp only
  generalize (decide ((join " " attributes).length > attributeWidth) ||
    attributes.any (fun a => a.toList.contains '\n')) = long
  cases long with
  | true => exact ⟨"/>", rfl⟩
  | false => exact ⟨" />", rfl⟩

theorem held_startTag {a : String} {attributes : List String} (ha : a ∈ attributes)
    (h : Held indent source a) (tag : String) :
    Held indent source (startTag indent tag attributes) := by
  unfold startTag
  split_ifs
  · exact (h.indented.joined (List.mem_map_of_mem ha) "\n").around _ _
  · have hspaced := h.mono (infix_append_right " " a)
    have hconcat := hspaced.mono (infix_concat (List.mem_map_of_mem ha))
    exact hconcat.mono (infix_append_right _ _)

theorem held_tagText_of_attribute {a : String} {attributes : List String} (ha : a ∈ attributes)
    (h : Held indent source a) (tag : String) (children : List String) (inline : Bool) :
    Held indent source (tagText indent tag attributes children inline) := by
  have hstart := held_startTag ha h tag
  obtain ⟨closing, heq⟩ := tagText_eq indent tag attributes children inline
  rw [heq]
  split_ifs
  · exact hstart.mono (infix_append_left _ _)
  · simp only [String.append_assoc]
    exact hstart.mono (infix_append_left _ _)
  · have hline := hstart.mono (infix_append_left _ ">")
    refine hline.joined ?_ "\n"
    simp

theorem held_tagText_of_child {c : String} {children : List String} (hc : c ∈ children)
    (h : Held indent source c) (tag : String) (attributes : List String) (inline : Bool) :
    Held indent source (tagText indent tag attributes children inline) := by
  obtain ⟨closing, heq⟩ := tagText_eq indent tag attributes children inline
  rw [heq, if_neg (by simpa using List.ne_nil_of_mem hc)]
  split_ifs
  · have hconcat := (h.mono (infix_concat hc)).around (startTag indent tag attributes ++ ">") "</"
    exact hconcat.mono ((infix_append_left _ _).trans (infix_append_left _ _))
  · refine h.indented.joined ?_ "\n"
    simp only [List.mem_append, List.mem_map]
    exact Or.inl (Or.inr ⟨c, hc, rfl⟩)

/-! ## Trees -/

/-- Sources that a text holds. -/
def HeldAll (indent : String) (sources : List String) (text : String) : Prop :=
  ∀ source ∈ sources, Held indent source text

/-- Sources each of which one of some texts holds. -/
def HeldAmong (indent : String) (sources texts : List String) : Prop :=
  ∀ source ∈ sources, ∃ text ∈ texts, Held indent source text

/-- The expressions of nodes with their paths. -/
def expressionsAt (places : List (String × Node)) : List String :=
  places.flatMap fun p => ownExpressions p.2

/-- Elements that are no routers, whose props have different names. -/
def Ordinary (places : List (String × Node)) : Prop :=
  ∀ path e cs, (path, .element e cs) ∈ places → e.widget ≠ "Router" ∧ (Assoc.keys e.props).Nodup

theorem heldAll_tagText {attributes children own below : List String}
    (hown : HeldAmong indent own attributes) (hbelow : HeldAmong indent below children)
    (tag : String) (inline : Bool) :
    HeldAll indent (own ++ below) (tagText indent tag attributes children inline) := by
  intro source hsource
  rcases List.mem_append.1 hsource with h | h
  · obtain ⟨a, ha, hheld⟩ := hown source h
    exact held_tagText_of_attribute ha hheld tag children inline
  · obtain ⟨c, hc, hheld⟩ := hbelow source h
    exact held_tagText_of_child hc hheld tag attributes inline

theorem heldAmong_attributesOf {e : Element} (hkeys : (Assoc.keys e.props).Nodup) (entry : Entry)
    (cs : List Node) :
    HeldAmong indent (ownExpressions (.element e cs)) (attributesOf entry e.props) := by
  intro source hsource
  obtain ⟨a, ha, hinfix⟩ := exists_attribute hkeys entry hsource
  exact ⟨a, ha, held_of_infix hinfix⟩

theorem heldAmong_attributeText (e : Element) (cs : List Node) (first : String) :
    HeldAmong indent (ownExpressions (.element e cs))
      (first :: e.props.map fun (prop, v) => attributeText prop v) := by
  intro source hsource
  obtain ⟨name, hmem, -⟩ := mem_ownExpressions.1 hsource
  exact ⟨_, List.mem_cons_of_mem _ (List.mem_map_of_mem hmem),
    held_of_infix (infix_attributeText _ _)⟩

theorem HeldAmong.cons {sources texts : List String} (h : HeldAmong indent sources texts)
    (text : String) : HeldAmong indent sources (text :: texts) := fun source hsource =>
  let ⟨t, ht, hheld⟩ := h source hsource
  ⟨t, List.mem_cons_of_mem _ ht, hheld⟩

theorem returnsAs_componentElement {s : Setting} {e : Element} (cs : List Node)
    {below : List String} (hrouter : e.widget ≠ "Router") (hkeys : (Assoc.keys e.props).Nodup)
    {items : Bool → Writer (List String)}
    (hitems : ∀ inline, ReturnsAs (items inline) (HeldAmong s.indent below)) (path : String) :
    ReturnsAs (componentElement s path e cs items)
      (HeldAll s.indent (ownExpressions (.element e cs) ++ below)) := by
  unfold componentElement
  rw [if_neg (by simpa using hrouter)]
  cases Validation.entryOf? s.environment.table e with
  | none =>
    refine returnsAs_bind _ fun name => (hitems false).bind fun texts htexts => returnsAs_pure ?_
    exact heldAll_tagText (heldAmong_attributeText e cs _) (htexts.cons _) "div" false
  | some entry =>
    refine returnsAs_bind _ fun _ => returnsAs_bind _ fun _ => ?_
    refine (hitems _).bind fun texts htexts => returnsAs_pure ?_
    exact heldAll_tagText (heldAmong_attributesOf hkeys entry cs) htexts entry.source _

theorem HeldAll.around_component {sources : List String} {inner indent : String} {m : Motion.Spec}
    {w : Motion.Written} (h : HeldAll indent sources inner)
    (hw : Motion.around .component m inner indent = .ok w) : HeldAll indent sources w.text := by
  intro source hsource
  have hinner := (h source hsource).indented
  unfold Motion.around Motion.aroundComponent at hw
  cases hg : m.gestures.mapM Motion.Gesture.attributes with
  | error f =>
    rw [hg] at hw
    cases hw
  | ok gestures =>
    simp only [hg, bind, Except.bind, pure, Except.pure, Except.ok.injEq] at hw
    subst hw
    refine hinner.mono ?_
    generalize indentLines indent inner = body
    exact (infix_around _ body "\n</").trans ((infix_append_left _ _).trans (infix_append_left _ _))

mutual

theorem returnsAs_componentNode (s : Setting) (path : String) (inline : Bool) : (n : Node) →
    Ordinary (n.walk path) →
      ReturnsAs (componentNode s path inline n) (HeldAll s.indent (expressionsAt (n.walk path)))
  | .text v, _ => fun _ _ _ _ _ hsource => by cases hsource
  | .slot source, _ => by
    rw [componentNode]
    refine returnsAs_pure fun source' hsource => ?_
    rw [List.mem_singleton.1 hsource]
    exact held_of_infix (infix_braced source)
  | .element e cs, h => by
    obtain ⟨hrouter, hkeys⟩ := h path e cs (List.mem_cons_self)
    have hbelow : Ordinary (Node.walkAll path 0 cs) := fun place e' cs' hmem =>
      h place e' cs' (List.mem_cons_of_mem _ hmem)
    have hinner := returnsAs_componentElement cs hrouter hkeys
      (fun inline => returnsAs_componentNodes s path 0 inline cs hbelow) path
    rw [componentNode]
    refine hinner.bind fun inner hheld => ?_
    cases e.motion with
    | none => exact returnsAs_pure hheld
    | some m =>
      refine returnsAs_bind _ fun _ => ?_
      refine (returnsAs_attempt fun w hw => hheld.around_component hw).bind fun w hw => ?_
      exact returnsAs_bind _ fun _ => returnsAs_pure hw

theorem returnsAs_componentNodes (s : Setting) (path : String) (index : Nat) (inline : Bool) :
    (ns : List Node) → Ordinary (Node.walkAll path index ns) →
      ReturnsAs (componentNodes s path index inline ns)
        (HeldAmong s.indent (expressionsAt (Node.walkAll path index ns)))
  | [], _ => fun _ _ _ _ _ hsource => by cases hsource
  | n :: ns, h => by
    have hfirst :=
        returnsAs_componentNode s (Node.childPath path index) inline n fun place e cs hmem =>
      h place e cs (List.mem_append_left _ hmem)
    have hrest := returnsAs_componentNodes s path (index + 1) inline ns fun place e cs hmem =>
      h place e cs (List.mem_append_right _ hmem)
    rw [componentNodes]
    refine hfirst.bind fun text htext => hrest.bind fun texts htexts => returnsAs_pure ?_
    intro source hsource
    rw [expressionsAt, Node.walkAll, List.flatMap_append, List.mem_append] at hsource
    rcases hsource with hsource | hsource
    · exact ⟨text, List.mem_cons_self, htext source hsource⟩
    · exact htexts.cons text source hsource

end

/-! ## Documents -/

/-- The expressions of the markup of a root. A root that holds its markup as one expression has no
other. -/
def markupExpressions (e : Element) (cs : List Node) : List String :=
  match rootMarkup? e cs with
  | some source => [source]
  | none => expressionsAt ((Node.element e cs).walk "root")

/-- What the markup holds is held by the component, and by the module around it. -/
theorem Held.module {markup : String} (h : Held indent source markup) (opening : String)
    (body parts : List String) :
    Held indent source (join "\n\n" (parts ++ [join "\n" ([opening] ++
      (body ++ ["return (\n" ++ indentLines indent markup ++ "\n);"]).map (indentLines indent) ++
        ["\x7d"])]) ++ "\n") := by
  have hreturn := (h.indented.around "return (\n" "\n);").indented
  have hcomponent : Held indent source (join "\n" ([opening] ++
      (body ++ ["return (\n" ++ indentLines indent markup ++ "\n);"]).map (indentLines indent) ++
        ["\x7d"])) := by
    refine hreturn.joined ?_ "\n"
    simp
  exact (hcomponent.joined (by simp) "\n\n").mono (infix_append_left _ "\n")

theorem returnsAs_componentDocument {s : Setting} {e : Element} {cs : List Node}
    (h : Ordinary ((Node.element e cs).walk "root")) (d : Document) :
    ReturnsAs (componentDocument s d e cs) (HeldAll s.indent (markupExpressions e cs)) := by
  unfold componentDocument markupExpressions
  refine returnsAs_bind _ fun fragments => ?_
  cases rootMarkup? e cs with
  | some source =>
    have hpure : ReturnsAs (pure source) (HeldAll s.indent [source]) := by
      refine returnsAs_pure fun source' hsource => ?_
      rw [List.mem_singleton.1 hsource]
      exact held_of_infix List.infix_rfl
    refine hpure.bind fun markup hheld => ?_
    refine returnsAs_bind _ fun _ => returnsAs_bind _ fun _ =>
      returnsAs_pure fun source hsource => ?_
    exact Held.module (hheld source hsource) _ _ _
  | none =>
    refine (returnsAs_componentNode s "root" false _ h).bind fun markup hheld => ?_
    refine returnsAs_bind _ fun _ => returnsAs_bind _ fun _ =>
      returnsAs_pure fun source hsource => ?_
    exact Held.module (hheld source hsource) _ _ _

/-- Every expression of a component is in its module, with its later lines indented by some steps;
and one on a single line is there as it stands. -/
theorem writeDocument_expressions {env : Environment} {d : Document} {e : Element} {cs : List Node}
    (hroot : d.root = some (.element e cs)) (hplaces : Ordinary ((Node.element e cs).walk "root"))
    {o : Outcome String} (ho : writeDocument env .component d = .ok o) {text : String}
    (htext : o.value = some text) {source : String} (hsource : source ∈ markupExpressions e cs) :
    Held env.settings.indent source text ∧
      ('\n' ∉ source.toList → occursIn source text = true) := by
  have hheld : Held env.settings.indent source text := by
    unfold writeDocument at ho
    rw [hroot] at ho
    dsimp only at ho
    split at ho
    · rename_i written draft hrun
      cases ho
      cases htext
      exact returnsAs_componentDocument hplaces d _ _ _ hrun source hsource
    · cases ho
      cases htext
    · cases ho
  exact ⟨hheld, fun hn => occursIn_of_infix (hheld.occurs hn)⟩

/-- A card with an expression in a prop and one two levels below it. -/
def card : Node :=
  .element { widget := "View", props := [("onPress", .expr "() => open(user)")] }
    [.element { widget := "View" } [.element { widget := "Text" } [.text "By ", .slot "user.name"]]]

/-- The expression deep in the card is in the component. -/
theorem writeDocument_expressions_card : ∃ o text,
    writeDocument {} .component { framework := "componentModel", root := some card } = .ok o ∧
      o.value = some text ∧ Ordinary (card.walk "root") ∧
      "user.name" ∈ expressionsAt (card.walk "root") ∧ occursIn "user.name" text = true := by
  have hplaces : Ordinary (card.walk "root") := by
    intro path e cs hmem
    simp only [card, Node.walk, Node.walkAll, List.mem_cons, Prod.mk.injEq, Node.element.injEq,
      List.append_nil, List.nil_append, List.cons_append, List.not_mem_nil, reduceCtorEq, and_false,
      or_false] at hmem
    rcases hmem with ⟨-, rfl, -⟩ | ⟨-, rfl, -⟩ | ⟨-, rfl, -⟩ <;> exact ⟨by decide, by decide⟩
  have hmem : "user.name" ∈ expressionsAt (card.walk "root") := by decide
  obtain ⟨o, text, ho, htext⟩ : ∃ o text, writeDocument {} .component
      { framework := "componentModel", root := some card } = .ok o ∧ o.value = some text :=
    ⟨_, _, rfl, rfl⟩
  refine ⟨o, text, ho, htext, hplaces, hmem, ?_⟩
  exact (writeDocument_expressions rfl hplaces ho htext hmem).2 (by decide)

/-- A note whose text is an expression on two lines. -/
def letter : Document :=
  { framework := "componentModel", file := "note.tsx", component := some "Note"
    root := some (.element { widget := "Text" } [.slot "`Dear $\x7bname\x7d,\nbye`"]) }

/-- The second line of the expression is indented, so the expression is not in the component. -/
theorem writeDocument_letter :
    letter.root.map (fun n => expressionsAt (n.walk "root")) =
      some ["`Dear $\x7bname\x7d,\nbye`"] ∧
    ((writeDocument {} .component letter).toOption.bind (·.value)).map
      (occursIn "`Dear $\x7bname\x7d,\nbye`") = some false := by
  decide +kernel

end WidgetBridge.Writing
