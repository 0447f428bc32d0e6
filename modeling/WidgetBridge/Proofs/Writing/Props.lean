import WidgetBridge.Conversion
import WidgetBridge.Proofs.Assoc
import WidgetBridge.Proofs.Writing.Verbatim

/-!
# Props in widget source

A prop of a mapped element goes to one of six kinds of places in the constructor call (`ArgPlace`).
Some places hold one value only, and some are there only for certain children: a later prop for the
same place, or the children themselves, can take it away (`ArgPlace.IsFree`).  A prop whose place
stays free is found in the call, and its warnings are among those of the element
(`widgetElement_contribution`).  A layout that the entry does not know has no widget to stand for
it, and nothing is said about it (`widgetElement_reversedRow`).

* `add_eq` puts the arguments by place, and `Holds` says what arguments hold at a place;
* `adds_argumentsFor` follows one prop through the props of an element;
* `reaches_placeContent` follows it past the children;
* `shown_mappedCall` finds it in the call.
-/

namespace WidgetBridge.Writing

open WidgetBridge.Text WidgetBridge.Mapping WidgetBridge.Config

/-! ## Text that is shown -/

/-- A text that holds a source, whose later lines may have been indented step by step. -/
def Shown (source text : String) : Prop :=
  ∃ leads : List String, (leads.foldl Motion.indentTail source).toList <:+: text.toList

section Shown

variable {source text : String}

theorem shown_of_infix (h : source.toList <:+: text.toList) : Shown source text := ⟨[], h⟩

theorem shown_rfl (source : String) : Shown source source := shown_of_infix List.infix_rfl

theorem Shown.mono (h : Shown source text) {text' : String} (ht : text.toList <:+: text'.toList) :
    Shown source text' := by
  obtain ⟨leads, hleads⟩ := h
  exact ⟨leads, hleads.trans ht⟩

theorem Shown.indented (h : Shown source text) (lead : String) :
    Shown source (indentLines lead text) := by
  obtain ⟨leads, hleads⟩ := h
  refine ⟨leads ++ [lead], ?_⟩
  rw [List.foldl_append, List.foldl_cons, List.foldl_nil, toList_indentTail, toList_indentLines]
  exact infix_indentChars hleads lead.toList true

theorem Shown.around (h : Shown source text) (a b : String) : Shown source (a ++ text ++ b) :=
  h.mono (infix_around a text b)

theorem Shown.joined (h : Shown source text) {texts : List String} (ht : text ∈ texts)
    (sep : String) : Shown source (join sep texts) :=
  h.mono (infix_join ht sep)

theorem Shown.occurs (h : Shown source text) (hn : '\n' ∉ source.toList) :
    occursIn source text = true := by
  obtain ⟨leads, hleads⟩ := h
  have hfixed : leads.foldl Motion.indentTail source = source := by
    clear hleads
    induction leads with
    | nil => rfl
    | cons lead leads ih =>
      have hlead : Motion.indentTail source lead = source := by
        apply String.toList_inj.1
        rw [toList_indentTail]
        simpa [indentChars] using indentChars_of_unbroken lead.toList hn []
      rw [List.foldl_cons, hlead, ih]
  rw [hfixed] at hleads
  exact occursIn_of_infix hleads

/-- What an argument shows is shown by the call. -/
theorem Shown.call {arg : String} {args : List String} (h : Shown source arg) (ha : arg ∈ args)
    (callee indent : String) : Shown source (callText callee args indent) := by
  unfold callText
  rw [if_neg (by simpa using List.ne_nil_of_mem ha)]
  dsimp only
  split_ifs
  · exact (h.joined ha ", ").around (callee ++ "(") ")"
  · have hline : Shown source (indentLines indent (if isComment arg then arg else arg ++ ",")) := by
      apply Shown.indented
      split_ifs
      · exact h
      · exact h.mono (infix_append_left _ _)
    have hmem : indentLines indent (if isComment arg then arg else arg ++ ",") ∈
        args.map fun a => indentLines indent (if isComment a then a else a ++ ",") :=
      List.mem_map.2 ⟨arg, ha, rfl⟩
    exact (hline.joined hmem "\n").around (callee ++ "(\n") "\n)"

theorem shown_callee (callee : String) (args : List String) (indent : String) :
    Shown callee (callText callee args indent) := by
  have hhead (rest : String) : Shown callee (callee ++ rest) :=
    shown_of_infix (infix_append_left _ _)
  unfold callText
  dsimp only
  split_ifs
  · exact hhead _
  · rw [String.append_assoc, String.append_assoc]
    exact hhead _
  · rw [String.append_assoc, String.append_assoc]
    exact hhead _

theorem Shown.list {item : String} {items : List String} (h : Shown source item) (hi : item ∈ items)
    (indent : String) : Shown source (listText items indent) := by
  unfold listText
  rw [if_neg (by simpa using List.ne_nil_of_mem hi)]
  have hline := (h.mono (infix_append_left _ ",")).indented indent
  have hmem : indentLines indent (item ++ ",") ∈ items.map fun i => indentLines indent (i ++ ",") :=
    List.mem_map.2 ⟨item, hi, rfl⟩
  exact (hline.joined hmem "\n").around "[\n" "\n]"

end Shown

/-! ## Places -/

/-- Where a prop goes in a constructor call. -/
inductive ArgPlace where
  | text
  | positional (index : Int)
  | layout
  | layoutArg (name : String)
  | group (group name : String)
  | named (name : String)
  deriving DecidableEq

/-- Whether a place holds one value only. -/
def ArgPlace.isSingle : ArgPlace → Bool
  | .text | .positional _ | .layout => true
  | .layoutArg _ | .group _ _ | .named _ => false

/-- The place that a target names. -/
def placeAt? (entry : Entry) (target : String) : Option ArgPlace :=
  if target == "#text" then some .text
  else if hasHead target "@" then (Number.readInt? (drop target 1)).map .positional
  else if target == "layout" then some .layout
  else if hasHead target "layout." then some (.layoutArg (dropHead target "layout."))
  else match cutAt? target "." with
    | some (group, name) =>
      if Assoc.has entry.groups group then some (.group group name) else some (.named target)
    | none => some (.named target)

/-- The layout that a value chooses. -/
def layoutChoice : PropValue → Option Value
  | .lit _ .null => none
  | .lit _ v => some v
  | .expr _ => none

namespace Arguments

/-- Puts a value at a place. -/
def put (a : Arguments) (v : PropValue) : ArgPlace → Arguments
  | .text => { a with text := some v }
  | .positional i => { a with positional := putAt i (WidgetGrammar.ofProp v) a.positional }
  | .layout => { a with layout := layoutChoice v }
  | .layoutArg name => { a with layoutArgs := a.layoutArgs ++ [(name, WidgetGrammar.ofProp v)] }
  | .group group name =>
    let items := (a.groups.get? group).getD []
    { a with groups := a.groups.put group (items ++ [(name, WidgetGrammar.ofProp v)]) }
  | .named name => { a with named := a.named ++ [(name, WidgetGrammar.ofProp v)] }

theorem add_eq (a : Arguments) (entry : Entry) (target : String) (v : PropValue) :
    a.add entry target v =
      match placeAt? entry target with
      | some place => .ok (a.put v place)
      | none => .error .badText := by
  unfold add placeAt?
  dsimp only
  split_ifs
  · rfl
  · cases Number.readInt? (drop target 1) <;> rfl
  · rfl
  · rfl
  · cases cutAt? target "." with
    | none => rfl
    | some parts =>
      dsimp only
      split_ifs <;> rfl

/-- Whether arguments hold a value at a place. -/
def Holds (a : Arguments) (v : PropValue) : ArgPlace → Prop
  | .text => a.text = some v
  | .positional i => (i, WidgetGrammar.ofProp v) ∈ a.positional
  | .layout => a.layout = layoutChoice v
  | .layoutArg name => (name, WidgetGrammar.ofProp v) ∈ a.layoutArgs
  | .group group name =>
    ∃ items, a.groups.get? group = some items ∧ (name, WidgetGrammar.ofProp v) ∈ items
  | .named name => (name, WidgetGrammar.ofProp v) ∈ a.named

theorem mem_putAt_self (i : Int) (source : String) (args : List (Int × String)) :
    (i, source) ∈ putAt i source args := by
  induction args with
  | nil => exact List.mem_cons_self
  | cons arg args ih =>
    unfold putAt
    split_ifs
    · exact List.mem_cons_self
    · exact List.mem_cons_self
    · exact List.mem_cons_of_mem _ ih

theorem mem_putAt_of_ne {i j : Int} (hne : i ≠ j) {source : String} {args : List (Int × String)}
    (h : (i, source) ∈ args) (other : String) : (i, source) ∈ putAt j other args := by
  induction args with
  | nil => cases h
  | cons arg args ih =>
    obtain ⟨k, s⟩ := arg
    unfold putAt
    split_ifs with hlt heq
    · exact List.mem_cons_of_mem _ h
    · rcases List.mem_cons.1 h with h | h
      · cases h
        exact absurd (beq_iff_eq.1 heq).symm hne
      · exact List.mem_cons_of_mem _ h
    · rcases List.mem_cons.1 h with h | h
      · rw [h]
        exact List.mem_cons_self
      · exact List.mem_cons_of_mem _ (ih h)

theorem get?_groups_put (a : Arguments) (v : PropValue) (group group' name : String) :
    (a.put v (.group group' name)).groups.get? group =
      if group = group' then
        some ((a.groups.get? group').getD [] ++ [(name, WidgetGrammar.ofProp v)])
      else a.groups.get? group :=
  Assoc.get?_put _ _ _ _

theorem holds_put (a : Arguments) (v : PropValue) (place : ArgPlace) :
    (a.put v place).Holds v place := by
  cases place with
  | text => rfl
  | positional i => exact mem_putAt_self _ _ _
  | layout => rfl
  | layoutArg name => simp [put, Holds]
  | group group name =>
    exact ⟨_, (get?_groups_put ..).trans (if_pos rfl),
      List.mem_append_right _ (List.mem_singleton_self _)⟩
  | named name => simp [put, Holds]

/-- What arguments hold stays, unless its place holds one value and gets another. -/
theorem Holds.put {a : Arguments} {v : PropValue} {place : ArgPlace} (h : a.Holds v place)
    {place' : ArgPlace} (hplace : place.isSingle = true → place' ≠ place) (w : PropValue) :
    (a.put w place').Holds v place := by
  cases place with
  | text =>
    cases place' with
    | text => exact absurd rfl (hplace rfl)
    | _ => exact h
  | positional i =>
    cases place' with
    | positional j =>
      refine mem_putAt_of_ne (fun hij => hplace rfl ?_) h _
      rw [hij]
    | _ => exact h
  | layout =>
    cases place' with
    | layout => exact absurd rfl (hplace rfl)
    | _ => exact h
  | layoutArg name =>
    cases place' with
    | layoutArg name' => exact List.mem_append_left _ h
    | _ => exact h
  | group group name =>
    cases place' with
    | group group' name' =>
      obtain ⟨items, hitems, hmem⟩ := h
      by_cases hgroup : group = group'
      · subst hgroup
        refine ⟨_, (get?_groups_put ..).trans (if_pos rfl), ?_⟩
        rw [hitems]
        exact List.mem_append_left _ hmem
      · exact ⟨items, by rw [get?_groups_put, if_neg hgroup, hitems], hmem⟩
    | _ => exact h
  | named name =>
    cases place' with
    | named name' => exact List.mem_append_left _ h
    | _ => exact h

/-! ### Rendering -/

theorem exists_withNote {arg : String} {positional named : List String}
    (h : arg ∈ positional ++ named) (comments : List String) :
    ∃ arg' ∈ withNote comments positional named, arg.toList <:+: arg'.toList := by
  unfold withNote
  split_ifs
  · exact ⟨arg, h, List.infix_rfl⟩
  · dsimp only
    split
    · next first rest _ =>
      rcases List.mem_append.1 h with h | h
      · exact ⟨arg, List.mem_append_left _ h, List.infix_rfl⟩
      · rcases List.mem_cons.1 h with rfl | h
        · exact ⟨_, List.mem_append_right _ List.mem_cons_self, infix_append_right _ _⟩
        · exact ⟨arg, List.mem_append_right _ (List.mem_cons_of_mem _ h), List.infix_rfl⟩
    · next last rest heq =>
      have hlast : positional = rest.reverse ++ [last] := by
        rw [← List.reverse_reverse positional, heq, List.reverse_cons]
      rw [List.append_nil, hlast] at h
      rcases List.mem_append.1 h with h | h
      · exact ⟨arg, List.mem_append_left _ h, List.infix_rfl⟩
      · refine ⟨_, List.mem_append_right _ (List.mem_singleton_self _), ?_⟩
        rw [List.mem_singleton.1 h, String.append_assoc]
        exact infix_append_left _ _
    · next heq =>
      rw [List.append_nil, List.reverse_eq_nil_iff.1 heq] at h
      cases h

/-- A source that one of the rendered arguments shows, whatever follows them. -/
def Renders (a : Arguments) (entry : Entry) (source : String) : Prop :=
  ∀ trailing, ∃ arg ∈ a.render entry trailing, Shown source arg

theorem renders_of_positional {a : Arguments} {i : Int} {source : String}
    (h : (i, source) ∈ a.positional) (entry : Entry) : a.Renders entry source := by
  intro trailing
  have hmem : source ∈ a.positional.map (·.2) := List.mem_map.2 ⟨_, h, rfl⟩
  obtain ⟨arg, harg, hinfix⟩ := exists_withNote (List.mem_append_left _ hmem) a.comments
  exact ⟨arg, harg, shown_of_infix hinfix⟩

theorem renders_of_named {a : Arguments} {name source : String} (h : (name, source) ∈ a.named)
    (entry : Entry) : a.Renders entry source := by
  intro trailing
  have hmem : namedText (name, source) ∈ a.named.map namedText := List.mem_map_of_mem h
  obtain ⟨arg, harg, hinfix⟩ := exists_withNote (List.mem_append_right (a.positional.map (·.2))
    (List.mem_append_left trailing (List.mem_append_left _ hmem))) a.comments
  exact ⟨arg, harg, shown_of_infix ((infix_append_right _ _).trans hinfix)⟩

theorem renders_of_group {a : Arguments} {group name source : String}
    {items : List (String × String)} (hgroup : a.groups.get? group = some items)
    (h : (name, source) ∈ items) (entry : Entry) : a.Renders entry source := by
  intro trailing
  have hitem : Shown source (namedText (name, source)) := shown_of_infix (infix_append_right _ _)
  have hcall := hitem.call (List.mem_map_of_mem h) ((Assoc.get? entry.groups group).getD "") "  "
  obtain ⟨arg, harg, hinfix⟩ := exists_withNote (List.mem_append_right (a.positional.map (·.2))
    (List.mem_append_left trailing (List.mem_append_right (a.named.map namedText)
      (List.mem_map_of_mem (Assoc.mem_of_get? hgroup))))) a.comments
  exact ⟨arg, harg, (hcall.mono (infix_append_right _ _)).mono hinfix⟩

theorem exists_render (a : Arguments) (entry : Entry) {arg : String} {trailing : List String}
    (h : arg ∈ trailing) : ∃ arg' ∈ a.render entry trailing, arg.toList <:+: arg'.toList :=
  exists_withNote (List.mem_append_right _ (List.mem_append_right _ h)) a.comments

end Arguments

/-! ## The props of an element -/

/-- The target of a prop. -/
def targetOf (entry : Entry) (name : String) : String :=
  match entry.findProp? name with
  | some rule => rule.target
  | none => name

/-- The place of a prop. A key is a named argument, and spread props have no place. -/
def placeOf? (entry : Entry) (name : String) : Option ArgPlace :=
  if hasHead name "..." then none
  else if name == "key" then some (.named "key")
  else placeAt? entry (targetOf entry name)

/-- What a prop carries over, with the warnings about it. -/
def carryOver (entry : Entry) (path name : String) (v : PropValue) :
    Attempt (PropValue × List Issue) :=
  if name == "key" then .ok (.expr ("ValueKey(" ++ WidgetGrammar.ofProp v ++ ")"), [])
  else (entry.carryProp name v .forward path).map fun r => (r.1.2, r.2)

theorem target_carryProp {entry : Entry} {name path target : String} {v w : PropValue}
    {issues : List Issue}
    (h : entry.carryProp name v .forward path = .ok ((target, w), issues)) :
    target = targetOf entry name := by
  unfold Entry.carryProp at h
  unfold targetOf
  dsimp only at h
  cases hrule : entry.findProp? name with
  | none =>
    rw [hrule] at h
    cases h
    rfl
  | some rule =>
    rw [hrule] at h
    dsimp only at h
    split at h
    · cases h
      rfl
    · cases h
      rfl
    · cases h

section Props

variable {entry : Entry} {path : String}

/-- One prop: a spread one becomes a comment, any other goes to its place with its warnings. -/
theorem adds_argumentsFor_cons {a : Arguments} {name : String} {v : PropValue} {props : Props}
    {R : Arguments → List Issue → Prop}
    (hspread : hasHead name "..." = true → ∀ comments,
      Adds (argumentsFor entry path { a with comments } props) R)
    (hother : hasHead name "..." = false → ∀ w issues place,
      carryOver entry path name v = .ok (w, issues) → placeOf? entry name = some place →
        Adds (argumentsFor entry path (a.put w place) props) fun a' more => R a' (issues ++ more)) :
    Adds (argumentsFor entry path a ((name, v) :: props)) R := by
  rw [argumentsFor]
  by_cases hname : hasHead name "..." = true
  · rw [if_pos hname]
    exact hspread hname _
  · rw [if_neg hname]
    have hname : hasHead name "..." = false := by simpa using hname
    have hplace : placeOf? entry name = if name == "key" then some (.named "key")
        else placeAt? entry (targetOf entry name) := by
      unfold placeOf?
      rw [hname]
      rfl
    by_cases hkey : (name == "key") = true
    · rw [if_pos hkey] at hplace ⊢
      have hcarry : carryOver entry path name v =
          .ok (.expr ("ValueKey(" ++ WidgetGrammar.ofProp v ++ ")"), []) := if_pos hkey
      exact hother hname _ _ _ hcarry hplace
    · rw [if_neg hkey] at hplace ⊢
      refine (adds_attempt (R := fun r issues => entry.carryProp name v .forward path = .ok r ∧
        issues = []) fun r hr => ⟨hr, rfl⟩).bind fun r added hr => ?_
      obtain ⟨⟨⟨target, w⟩, issues⟩, hr, rfl⟩ := r, hr
      have hcarry : carryOver entry path name v = .ok (w, issues) := by
        unfold carryOver
        rw [if_neg hkey, hr]
        rfl
      rw [← target_carryProp hr] at hplace
      refine (adds_warn (R := fun _ added => added = issues) rfl).bind fun _ added hadded => ?_
      subst hadded
      refine (adds_attempt (R := fun a' more => more = [] ∧
        a.add entry target w = .ok a') fun a' ha' => ⟨rfl, ha'⟩).bind fun a' more ha' => ?_
      obtain ⟨rfl, ha'⟩ := ha'
      rw [Arguments.add_eq] at ha'
      cases hat : placeAt? entry target with
      | none =>
        rw [hat] at ha'
        cases ha'
      | some place =>
        rw [hat] at ha'
        cases ha'
        exact hother hname w added place hcarry (hplace.trans hat)

theorem isSome_text_put (a : Arguments) (v : PropValue) (place : ArgPlace) :
    (a.put v place).text.isSome = (a.text.isSome || some place == some .text) := by
  cases place with
  | text => simp [Arguments.put]
  | _ => exact (Bool.or_false _).symm

/-- The widget has a text if some prop gives it. -/
theorem adds_argumentsFor_text (a : Arguments) (props : Props) :
    Adds (argumentsFor entry path a props) fun a' _ =>
      a'.text.isSome = (a.text.isSome || props.any fun q => placeOf? entry q.1 == some .text) := by
  induction props generalizing a with
  | nil => exact adds_pure (by simp)
  | cons q props ih =>
    obtain ⟨name, v⟩ := q
    apply adds_argumentsFor_cons
    · intro hspread comments
      have hnone : placeOf? entry name = none := if_pos hspread
      refine (ih _).imp fun a' _ h => ?_
      rw [h, List.any_cons, hnone]
      rfl
    · intro _ w issues place _ hplace
      refine (ih _).imp fun a' _ h => ?_
      rw [h, isSome_text_put, List.any_cons, hplace, Bool.or_assoc]

/-- What the arguments hold stays until a later prop takes its place. -/
theorem adds_argumentsFor_holds {a : Arguments} {v : PropValue} {place : ArgPlace} {props : Props}
    (h : a.Holds v place)
    (hprops : place.isSingle = true → ∀ q ∈ props, placeOf? entry q.1 ≠ some place) :
    Adds (argumentsFor entry path a props) fun a' _ => a'.Holds v place := by
  induction props generalizing a with
  | nil => exact adds_pure h
  | cons q props ih =>
    obtain ⟨name, w⟩ := q
    have hrest : place.isSingle = true → ∀ q ∈ props, placeOf? entry q.1 ≠ some place :=
      fun hs q hq => hprops hs q (List.mem_cons_of_mem _ hq)
    apply adds_argumentsFor_cons
    · intro _ comments
      apply ih _ hrest
      cases place <;> exact h
    · intro _ w' issues place' _ hplace'
      refine ih (h.put (fun hs heq => ?_) w') hrest
      exact hprops hs _ List.mem_cons_self (heq ▸ hplace')

/-- A prop goes to its place and stays there until a later prop takes it. -/
theorem adds_argumentsFor (entry : Entry) (path : String) (a : Arguments) (before after : Props)
    (v : PropValue) {name : String} (hname : hasHead name "..." = false) :
    Adds (argumentsFor entry path a (before ++ (name, v) :: after)) fun a' added =>
      ∃ w issues place, carryOver entry path name v = .ok (w, issues) ∧
        placeOf? entry name = some place ∧ issues ⊆ added ∧
        ((place.isSingle = true → ∀ q ∈ after, placeOf? entry q.1 ≠ some place) →
          a'.Holds w place) := by
  induction before generalizing a with
  | nil =>
    apply adds_argumentsFor_cons
    · intro hspread
      rw [hname] at hspread
      cases hspread
    · intro _ w issues place hcarry hplace
      by_cases hfree : place.isSingle = true → ∀ q ∈ after, placeOf? entry q.1 ≠ some place
      · refine (adds_argumentsFor_holds (a.holds_put w place) hfree).imp fun a' more ha' => ?_
        exact ⟨w, issues, place, hcarry, hplace, List.subset_append_left _ _, fun _ => ha'⟩
      · refine (adds_argumentsFor_text _ after).imp fun a' more _ => ?_
        exact ⟨w, issues, place, hcarry, hplace, List.subset_append_left _ _,
          fun h => absurd h hfree⟩
  | cons q before ih =>
    obtain ⟨name', v'⟩ := q
    apply adds_argumentsFor_cons
    · exact fun _ _ => ih _
    · intro _ w' issues' place' _ _
      refine (ih _).imp fun a' more h => ?_
      obtain ⟨w, issues, place, hcarry, hplace, hsub, hholds⟩ := h
      exact ⟨w, issues, place, hcarry, hplace,
        fun i hi => List.mem_append_right _ (hsub hi), hholds⟩

end Props

/-! ## Past the children -/

/-- Whether a node is a text. -/
def isTextNode : Node → Bool
  | .text _ => true
  | _ => false

/-- Whether a run of text takes the place of the children. -/
def takesRun (entry : Entry) (props : Props) (children : List Node) : Bool :=
  if children.isEmpty then props.any fun q => placeOf? entry q.1 == some .text
  else !children.any Node.isElement && (entry.textMode != .none || children.any isTextNode)

/-- Whether props choose the widget that holds the children. -/
def laysOut (entry : Entry) (props : Props) (children : List Node) : Bool :=
  entry.layout.isSome && entry.singleSlot?.isSome &&
    (!takesRun entry props children || entry.textMode == .none)

/-- The layout widget that a value chooses. -/
def layoutWidget? (entry : Entry) (v : PropValue) : Option String :=
  entry.layout.bind fun layout => (layoutChoice v).bind fun choice =>
    layout.widgets.get? choice.text

/-- Whether the children leave room for a value at a place. -/
def ArgPlace.HasRoom (entry : Entry) (props : Props) (children : List Node) (v : PropValue) :
    ArgPlace → Prop
  | .text => children = []
  | .positional i => i = 0 → takesRun entry props children = true → entry.textMode ≠ .positional
  | .layout => laysOut entry props children = true ∧ (layoutWidget? entry v).isSome = true
  | .layoutArg _ => laysOut entry props children = true
  | .group _ _ | .named _ => True

/-- The source that stands for a value at a place: a text is a literal, a layout is a widget. -/
def ArgPlace.contribution (entry : Entry) (v : PropValue) : ArgPlace → String
  | .text => textLiteral [textNode v]
  | .layout => (layoutWidget? entry v).getD ""
  | .positional _ | .layoutArg _ | .group _ _ | .named _ => WidgetGrammar.ofProp v

/-- A source that the arguments or the argument with the children show. -/
def Reaches (entry : Entry) (source : String) (r : Arguments × Option (String × String)) : Prop :=
  r.1.Renders entry source ∨ ∃ arg, r.2 = some arg ∧ Shown source arg.2

section Content

variable {s : Setting} {entry : Entry} {path : String} {a : Arguments} {children : List Node}

theorem takesRun_of_run {props : Props} {nodes : List Node}
    (htext : a.text.isSome = props.any fun q => placeOf? entry q.1 == some .text)
    (h : contentOf entry a.text children = .run nodes) : takesRun entry props children = true := by
  unfold takesRun
  cases children with
  | nil =>
    rw [List.isEmpty_nil, if_pos rfl, ← htext]
    cases ht : a.text with
    | none =>
      rw [ht] at h
      cases h
    | some v => rfl
  | cons c cs =>
    unfold contentOf at h
    dsimp only at h
    split_ifs at h with hany hmode
    have hmode : (entry.textMode != .none || (c :: cs).any isTextNode) = true := hmode
    simp only [List.isEmpty_cons, Bool.false_eq_true, if_false, hmode, Bool.and_true]
    simpa using hany

theorem exists_childArgument {indent item : String} {items : List String}
    {slot : Option (String × String)} (hslot : entry.childSlot ≠ "none") (hitem : item ∈ items)
    (h : childArgument entry a indent items = .ok slot) {source : String} (hs : Shown source item) :
    ∃ arg, slot = some arg ∧ Shown source arg.2 := by
  have hlist := (hs.list hitem indent).mono (infix_append_right "children: " _)
  unfold childArgument at h
  split_ifs at h with hchildren
  · cases h
    exact ⟨_, rfl, hs.list hitem indent⟩
  · have hsingle : entry.singleSlot? = some entry.childSlot := by
      unfold Entry.singleSlot?
      rw [if_neg]
      simpa [hslot] using hchildren
    rw [hsingle] at h
    dsimp only at h
    split at h
    · split at h
      · cases h
        exact ⟨_, rfl, hlist.call (List.mem_append_right _ (List.mem_singleton_self _)) _ _⟩
      · cases h
    · split at h
      · cases hitem
      · cases h
        rw [List.mem_singleton.1 hitem] at hs
        exact ⟨_, rfl, hs⟩
      · cases h
        exact ⟨_, rfl, hlist.call (List.mem_singleton_self _) _ _⟩

theorem childArgument_layout {indent : String} {items : List String}
    {slot : Option (String × String)} {layout : Layout} (hlayout : entry.layout = some layout)
    (hsingle : entry.singleSlot?.isSome = true)
    (hprops : (a.layout.isSome || !a.layoutArgs.isEmpty) = true)
    (h : childArgument entry a indent items = .ok slot) :
    ∃ widget, ((layout.widgets.get? ((a.layout.map Value.text).getD layout.fallback)).orElse
        fun _ => layout.widgets.get? layout.fallback) = some widget ∧
      slot = some ("layout", callText widget
        (a.layoutArgs.map namedText ++ ["children: " ++ listText items indent]) indent) := by
  obtain ⟨name, hname⟩ := Option.isSome_iff_exists.1 hsingle
  have hchildren : ¬ (entry.childSlot == "children") = true := by
    intro heq
    unfold Entry.singleSlot? at hname
    rw [heq] at hname
    cases hname
  unfold childArgument at h
  rw [if_neg hchildren, hname] at h
  dsimp only at h
  rw [Bool.or_assoc, hprops, Bool.or_true, if_pos rfl, hlayout] at h
  dsimp only at h
  split at h
  · next widget hwidget =>
    cases h
    exact ⟨widget, hwidget, rfl⟩
  · cases h

/-- The content of an element, by what its children are and where text goes. -/
theorem adds_placeContent {items : Writer (List String)} (hitems : Adds items fun _ _ => True)
    {R : Arguments × Option (String × String) → Prop}
    (hpositional : ∀ nodes, contentOf entry a.text children = .run nodes →
      entry.textMode = .positional →
        R ({ a with positional := Arguments.putAt 0 (textLiteral nodes) a.positional }, none))
    (hwrap : ∀ nodes name, contentOf entry a.text children = .run nodes → entry.textMode = .wrap →
      R (a, some (name, callText "Text" [textLiteral nodes] s.indent)))
    (hrun : ∀ nodes slot, contentOf entry a.text children = .run nodes → entry.textMode = .none →
      entry.childSlot ≠ "none" →
        childArgument entry a s.indent [callText "Text" [textLiteral nodes] s.indent] = .ok slot →
          R (a, slot))
    (hwidgets : ∀ texts slot, contentOf entry a.text children = .widgets →
      childArgument entry a s.indent texts = .ok slot → R (a, slot)) :
    Adds (placeContent s entry path a children items) fun r _ => R r := by
  unfold placeContent
  dsimp only
  cases hcontent : contentOf entry a.text children with
  | run nodes =>
    cases hmode : entry.textMode with
    | positional => exact adds_pure (hpositional nodes hcontent hmode)
    | wrap => exact adds_pure (hwrap nodes _ hcontent hmode)
    | none =>
      refine (adds_need (R := fun _ _ => True) _ _ trivial).bind fun _ _ _ => ?_
      split_ifs with hslot
      · exact adds_throw_bind _ _
      · refine (adds_attempt (R := fun slot _ => childArgument entry a s.indent
          [callText "Text" [textLiteral nodes] s.indent] = .ok slot) fun _ h => h).bind
            fun slot _ h => adds_pure ?_
        exact hrun nodes slot hcontent hmode (by simpa using hslot) h
  | widgets =>
    dsimp only
    split_ifs
    · exact adds_throw_bind _ _
    · refine hitems.bind fun texts _ _ => ?_
      refine (adds_attempt (R := fun slot _ => childArgument entry a s.indent texts = .ok slot)
        fun _ h => h).bind fun slot _ h => adds_pure ?_
      exact hwidgets texts slot hcontent h

theorem adds_placeContent_true {items : Writer (List String)}
    (hitems : Adds items fun _ _ => True) :
    Adds (placeContent s entry path a children items) fun _ _ => True :=
  adds_placeContent hitems (fun _ _ _ => trivial) (fun _ _ _ _ => trivial)
    (fun _ _ _ _ _ _ => trivial) fun _ _ _ _ => trivial

theorem exists_layout {props : Props} (h : laysOut entry props children = true) :
    ∃ layout, entry.layout = some layout ∧ entry.singleSlot?.isSome = true := by
  unfold laysOut at h
  rw [Bool.and_eq_true, Bool.and_eq_true] at h
  obtain ⟨layout, hlayout⟩ := Option.isSome_iff_exists.1 h.1.1
  exact ⟨layout, hlayout, h.1.2⟩

/-- Where props choose the layout, the children stand in the argument for children. -/
theorem adds_laidOut {items : Writer (List String)} (hitems : Adds items fun _ _ => True)
    {props : Props} (htext : a.text.isSome = props.any fun q => placeOf? entry q.1 == some .text)
    (hout : laysOut entry props children = true) {R : Arguments × Option (String × String) → Prop}
    (h : ∀ texts slot, childArgument entry a s.indent texts = .ok slot → R (a, slot)) :
    Adds (placeContent s entry path a children items) fun r _ => R r := by
  unfold laysOut at hout
  rw [Bool.and_eq_true] at hout
  have hmode {nodes : List Node} (hcontent : contentOf entry a.text children = .run nodes) :
      entry.textMode = .none := by
    simpa [takesRun_of_run htext hcontent] using hout.2
  apply adds_placeContent hitems
  · intro nodes hcontent hpositional
    rw [hmode hcontent] at hpositional
    cases hpositional
  · intro nodes name hcontent hwrap
    rw [hmode hcontent] at hwrap
    cases hwrap
  · exact fun nodes slot _ _ _ hslot => h _ slot hslot
  · exact fun texts slot _ hslot => h texts slot hslot

/-- A value for which there is room at its place gets past the children. -/
theorem reaches_placeContent {items : Writer (List String)} (hitems : Adds items fun _ _ => True)
    {props : Props} {v : PropValue} {place : ArgPlace}
    (htext : a.text.isSome = props.any fun q => placeOf? entry q.1 == some .text)
    (hholds : a.Holds v place) (hroom : place.HasRoom entry props children v) :
    Adds (placeContent s entry path a children items) fun r _ =>
      Reaches entry (place.contribution entry v) r := by
  cases place with
  | named name =>
    apply adds_placeContent hitems <;> intros <;> left
    all_goals
      apply Arguments.renders_of_named
      exact hholds
  | group group name =>
    obtain ⟨members, hgroup, hmem⟩ := hholds
    have hrenders (a' : Arguments) (heq : a'.groups = a.groups) :
        a'.Renders entry (WidgetGrammar.ofProp v) :=
      Arguments.renders_of_group (heq ▸ hgroup) hmem entry
    apply adds_placeContent hitems <;> intros <;> left
    all_goals exact hrenders _ rfl
  | positional i =>
    apply adds_placeContent hitems <;> intros <;> left
    · next nodes hcontent hmode =>
      have hi : i ≠ 0 := fun hi => hroom hi (takesRun_of_run htext hcontent) hmode
      exact Arguments.renders_of_positional (Arguments.mem_putAt_of_ne hi hholds _) entry
    all_goals exact Arguments.renders_of_positional hholds entry
  | text =>
    have hcontent : contentOf entry a.text children = .run [textNode v] := by
      rw [show children = [] from hroom, show a.text = some v from hholds]
      rfl
    have hitem : Shown (textLiteral [textNode v])
        (callText "Text" [textLiteral [textNode v]] s.indent) :=
      (shown_rfl _).call (List.mem_singleton_self _) _ _
    apply adds_placeContent hitems <;> rw [hcontent] <;> intros
    · next nodes heq _ =>
      cases heq
      exact .inl (Arguments.renders_of_positional (Arguments.mem_putAt_self _ _ _) entry)
    · next nodes name heq _ =>
      cases heq
      exact .inr ⟨_, rfl, hitem⟩
    · next nodes slot heq _ hslot h =>
      cases heq
      exact .inr (exists_childArgument hslot (List.mem_singleton_self _) h hitem)
    · next heq _ => cases heq
  | layout =>
    obtain ⟨hout, hwidget⟩ := hroom
    obtain ⟨widget, hwidget⟩ := Option.isSome_iff_exists.1 hwidget
    obtain ⟨layout, hlayout, hsingle⟩ := exists_layout hout
    have hchoice : ∃ choice, layoutChoice v = some choice ∧ layout.widgets.get? choice.text =
        some widget := by
      unfold layoutWidget? at hwidget
      rw [hlayout] at hwidget
      exact Option.bind_eq_some_iff.1 hwidget
    obtain ⟨choice, hchoice, hget⟩ := hchoice
    have hchosen : a.layout = some choice := hholds.trans hchoice
    apply adds_laidOut hitems htext hout
    intro texts slot h
    obtain ⟨widget', hwidget', rfl⟩ := childArgument_layout hlayout hsingle (by simp [hchosen]) h
    rw [hchosen] at hwidget'
    rw [Option.map_some, Option.getD_some, hget] at hwidget'
    cases hwidget'
    have hsource : ArgPlace.contribution entry v .layout = widget := by
      rw [ArgPlace.contribution, hwidget]
      rfl
    rw [hsource]
    exact .inr ⟨_, rfl, shown_callee _ _ _⟩
  | layoutArg name =>
    obtain ⟨layout, hlayout, hsingle⟩ := exists_layout hroom
    have hmem : (name, WidgetGrammar.ofProp v) ∈ a.layoutArgs := hholds
    have hsome : (a.layout.isSome || !a.layoutArgs.isEmpty) = true := by
      simp [List.ne_nil_of_mem hmem]
    apply adds_laidOut hitems htext hroom
    intro texts slot h
    obtain ⟨widget, -, rfl⟩ := childArgument_layout hlayout hsingle hsome h
    have harg : Shown (WidgetGrammar.ofProp v) (namedText (name, WidgetGrammar.ofProp v)) :=
      shown_of_infix (infix_append_right _ _)
    exact .inr ⟨_, rfl, harg.call (List.mem_append_left _ (List.mem_map_of_mem hmem)) _ _⟩

/-- What gets past the children is shown by the call. -/
theorem shown_mappedCall {source : String} {slot : Option (String × String)}
    (h : Reaches entry source (a, slot)) : Shown source (mappedCall s entry a slot) := by
  have hslot {arg : String} (hshown : Shown source arg) :
      Shown source (callText entry.target (a.render entry [arg]) s.indent) := by
    obtain ⟨arg', harg', hinfix⟩ := a.exists_render entry (List.mem_singleton_self arg)
    exact (hshown.mono hinfix).call harg' _ _
  unfold mappedCall
  rcases h with hrenders | ⟨arg, rfl, hshown⟩
  · have hown (trailing : List String) :
        Shown source (callText entry.target (a.render entry trailing) s.indent) := by
      obtain ⟨arg, harg, hshown⟩ := hrenders trailing
      exact hshown.call harg _ _
    split
    · exact hown _
    · split_ifs with hnone hempty
      · exact hown _
      · -- a call without arguments of its own renders nothing
        obtain ⟨arg, harg, -⟩ := hrenders []
        rw [List.isEmpty_iff.1 hempty] at harg
        cases harg
      · exact hown _
    · exact hown _
  · split
    · next heq => cases heq
    · next call heq =>
      cases heq
      split_ifs
      · exact hslot (hshown.mono (infix_append_right _ _))
      · exact hshown
      · exact hslot (hshown.mono (infix_append_right _ _))
    · next arg' _ heq =>
      cases heq
      exact hslot (hshown.mono (infix_append_right _ _))

end Content

/-! ## Elements -/

theorem adds_routerFragment (s : Setting) (e : Element) :
    Adds (routerFragment s e) fun _ _ => True := by
  have hrest (schema : Route.Schema) : Adds (do
      let f := Route.emit s.framework schema s.environment.settings.unauthorizedRoute s.indent
      warn (f.warnings.map .remark)
      needAll f.imports
      modify fun d => { d with declarations := d.declarations ++ f.declarations }
      return f : Writer Route.Fragment) fun _ _ => True := by
    refine (adds_warn (R := fun _ _ => True) trivial).bind fun _ _ _ => ?_
    refine (adds_needAll (R := fun _ _ => True) _ trivial).bind fun _ _ _ => ?_
    refine Adds.bind (R := fun _ _ => True) (adds_modify ?_ trivial) fun _ _ _ => adds_pure trivial
    exact fun _ => rfl
  unfold routerFragment
  split
  · exact hrest _
  · split_ifs
    · exact adds_throw_bind _ _
    · exact hrest _
  · exact hrest _

section Elements

variable {s : Setting} {path : String} {e : Element} {children : List Node}

/-- A mapped element: what its props become, its content, and the call. -/
theorem adds_mappedElement {entry : Entry} (hrouter : e.widget ≠ "Router")
    (hentry : Validation.entryOf? s.environment.table e = some entry)
    {items : Writer (List String)} {P : Arguments → List Issue → Prop}
    {R : String → List Issue → Prop} (hprops : Adds (argumentsFor entry path {} e.props) P)
    (hcontent : ∀ a added, P a added → Adds (placeContent s entry path a children items)
      fun r more => R (mappedCall s entry r.1 r.2) (added ++ more)) :
    Adds (widgetElement s path e children items) R := by
  unfold widgetElement
  simp only [beq_iff_eq, hrouter, if_false, hentry]
  refine (adds_attempt (R := fun _ added => added = []) fun _ _ => rfl).bind fun _ added hnil => ?_
  subst hnil
  refine (adds_forIn (fun _ => adds_need _ _ rfl) _).bind fun _ added hnil => ?_
  subst hnil
  refine hprops.bind fun a added ha => ?_
  refine (hcontent a added ha).bind fun r more hr => adds_pure ?_
  simpa using hr

theorem adds_widgetElement {items : Writer (List String)} (hitems : Adds items fun _ _ => True) :
    Adds (widgetElement s path e children items) fun _ _ => True := by
  by_cases hrouter : e.widget = "Router"
  · unfold widgetElement
    rw [if_pos (by simpa using hrouter)]
    refine (adds_routerFragment s e).bind fun f _ _ => ?_
    split_ifs
    · exact (adds_warn (R := fun _ _ => True) trivial).bind fun _ _ _ => adds_pure trivial
    · exact adds_pure trivial
  · cases hentry : Validation.entryOf? s.environment.table e with
    | none =>
      unfold widgetElement placeholderName
      simp only [beq_iff_eq, hrouter, if_false, hentry, bind_assoc, pure_bind]
      refine (adds_warn (R := fun _ _ => True) trivial).bind fun _ _ _ => ?_
      exact hitems.bind fun _ _ _ => adds_pure trivial
    | some entry =>
      apply adds_mappedElement hrouter hentry (adds_argumentsFor_text _ _)
      exact fun _ _ _ => adds_placeContent_true hitems

mutual

/-- Writing a node leaves the warnings that are there. -/
theorem adds_widgetNode (s : Setting) (path : String) : (n : Node) →
    Adds (widgetNode s path n) fun _ _ => True
  | .text v => adds_pure trivial
  | .slot source => adds_pure trivial
  | .element e cs => by
    rw [widgetNode]
    refine (adds_widgetElement (adds_widgetNodes s path 0 cs)).bind fun inner _ _ => ?_
    cases e.motion with
    | none => exact adds_pure trivial
    | some motion =>
      refine (adds_attempt (R := fun _ _ => True) fun _ _ => trivial).bind fun w _ _ => ?_
      exact (adds_warn (R := fun _ _ => True) trivial).bind fun _ _ _ => adds_pure trivial

theorem adds_widgetNodes (s : Setting) (path : String) (index : Nat) : (ns : List Node) →
    Adds (widgetNodes s path index ns) fun _ _ => True
  | [] => adds_pure trivial
  | n :: ns => by
    rw [widgetNodes]
    refine (adds_widgetNode s _ n).bind fun _ _ _ => ?_
    exact (adds_widgetNodes s path (index + 1) ns).bind fun _ _ _ => adds_pure trivial

end

/-- Whether neither the children nor a later prop take a value away from its place. -/
def ArgPlace.IsFree (place : ArgPlace) (entry : Entry) (props after : Props) (children : List Node)
    (v : PropValue) : Prop :=
  place.HasRoom entry props children v ∧
    (place.isSingle = true → ∀ q ∈ after, placeOf? entry q.1 ≠ some place)

/-- The warnings about a prop are among those of its element, and a prop whose place stays free is
shown by the call: on several lines up to their indentation, and on one line as it stands. -/
theorem widgetElement_contribution {entry : Entry} (hrouter : e.widget ≠ "Router")
    (hentry : Validation.entryOf? s.environment.table e = some entry)
    {before after : Props} {name : String} {v : PropValue}
    (hprops : e.props = before ++ (name, v) :: after) (hname : hasHead name "..." = false)
    {d d' : Draft} {text : String}
    (hrun : (widgetElement s path e children (widgetNodes s path 0 children)).run.run d =
      (.ok text, d')) :
    ∃ w issues place added, carryOver entry path name v = .ok (w, issues) ∧
      placeOf? entry name = some place ∧ d'.warnings = d.warnings ++ added ∧ issues ⊆ added ∧
      (place.IsFree entry e.props after children w →
        Shown (place.contribution entry w) text ∧
        ('\n' ∉ (place.contribution entry w).toList →
          occursIn (place.contribution entry w) text = true)) := by
  have hprop := adds_argumentsFor entry path {} before after v hname
  have hargs := hprop.and (adds_argumentsFor_text {} (before ++ (name, v) :: after))
  rw [← hprops] at hargs
  have helement : Adds (widgetElement s path e children (widgetNodes s path 0 children))
      fun text added => ∃ w issues place, carryOver entry path name v = .ok (w, issues) ∧
        placeOf? entry name = some place ∧ issues ⊆ added ∧
        (place.IsFree entry e.props after children w →
          Shown (place.contribution entry w) text) := by
    refine adds_mappedElement hrouter hentry hargs ?_
    rintro a added ⟨⟨w, issues, place, hcarry, hplace, hsub, hholds⟩, htext⟩
    have hsub' (more : List Issue) : issues ⊆ added ++ more :=
      fun i hi => List.mem_append_left _ (hsub hi)
    by_cases hfree : place.IsFree entry e.props after children w
    · refine (reaches_placeContent (adds_widgetNodes s path 0 children) htext (hholds hfree.2)
        hfree.1).imp fun r more hr => ?_
      exact ⟨w, issues, place, hcarry, hplace, hsub' more, fun _ => shown_mappedCall hr⟩
    · refine (adds_placeContent_true (adds_widgetNodes s path 0 children)).imp fun r more _ => ?_
      exact ⟨w, issues, place, hcarry, hplace, hsub' more, fun h => absurd h hfree⟩
  obtain ⟨added, hadded, w, issues, place, hcarry, hplace, hsub, hshown⟩ := helement d text d' hrun
  exact ⟨w, issues, place, added, hcarry, hplace, hadded, hsub,
    fun hfree => ⟨hshown hfree, (hshown hfree).occurs⟩⟩

end Elements

/-- A button with a title. -/
def saveButton : Element :=
  { widget := "Button"
    props := [("title", .lit .string (.str "Save")), ("onPress", .expr "save")] }

/-- Without children the title is the text of the button. -/
theorem widgetElement_contribution_saveButton : ∃ text draft,
    (widgetElement ⟨{}, .widget, "<memory>"⟩ "root" saveButton []
      (widgetNodes ⟨{}, .widget, "<memory>"⟩ "root" 0 [])).run.run {} = (.ok text, draft) ∧
    occursIn "'Save'" text = true := by
  obtain ⟨text, draft, hrun⟩ : ∃ text draft,
      (widgetElement ⟨{}, .widget, "<memory>"⟩ "root" saveButton []
        (widgetNodes ⟨{}, .widget, "<memory>"⟩ "root" 0 [])).run.run {} = (.ok text, draft) :=
    ⟨_, _, rfl⟩
  obtain ⟨entry, hentry, htitle, hpress, hvalue⟩ : ∃ entry,
      Validation.entryOf? Bundled.table saveButton = some entry ∧
      placeOf? entry "title" = some .text ∧ placeOf? entry "onPress" = some (.named "onPressed") ∧
      carryOver entry "root" "title" (.lit .string (.str "Save")) =
        .ok (.lit .string (.str "Save"), []) :=
    ⟨_, rfl, by decide, by decide, rfl⟩
  obtain ⟨w, issues, place, added, hcarry, hplace, -, -, hshown⟩ :=
    widgetElement_contribution (by decide) hentry (List.nil_append _).symm (by decide) hrun
  rw [hvalue] at hcarry
  rw [htitle] at hplace
  cases hcarry
  cases hplace
  have hline : '\n' ∉ (textLiteral [textNode (.lit .string (.str "Save"))]).toList := by decide
  refine ⟨text, draft, hrun, (hshown ⟨rfl, fun _ q hq => ?_⟩).2 hline⟩
  rw [List.mem_singleton.1 hq, hpress]
  decide

/-- A view that lays out its children in a row, from the last to the first. -/
def reversedRow : Element :=
  { widget := "View", props := [("flexDirection", .lit .string (.str "row-reverse"))] }

/-- A layout that the table does not know becomes the default one, and no warning says so. -/
theorem widgetElement_reversedRow :
    (Validation.entryOf? Bundled.table reversedRow).isSome = true ∧ ∃ draft,
    (widgetElement ⟨{}, .widget, "<memory>"⟩ "root" reversedRow [.slot "first", .slot "last"]
      (widgetNodes ⟨{}, .widget, "<memory>"⟩ "root" 0 [.slot "first", .slot "last"])).run.run {} =
        (.ok "Column(\n  children: [\n    first,\n    last,\n  ],\n)", draft) ∧
    draft.warnings = [] ∧
    occursIn "row-reverse" "Column(\n  children: [\n    first,\n    last,\n  ],\n)" = false :=
  ⟨rfl, _, rfl, rfl, by decide⟩

end WidgetBridge.Writing
