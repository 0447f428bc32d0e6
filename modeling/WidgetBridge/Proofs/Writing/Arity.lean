import WidgetBridge.Conversion
import WidgetBridge.Proofs.Validation
import WidgetBridge.Proofs.Writing.Failures

/-!
# Validation and the number of children

Validation counts all texts and slots of an element as one child, and writing counts each of them.
So a validated document can be refused where it is written, and `overruns` lists where: at elements
whose children are a run of texts and slots that is more than the widget takes.

* `checkArity_eq_ok_iff` compares the two counts at one element;
* `failsAs_componentNode` and `failsAs_widgetNode` follow the two writers through a tree, and
  `fails_componentNode` and `fails_widgetNode` show that they do not pass such an element;
* `writeDocument_arity` puts this together for whole documents.
-/

namespace WidgetBridge.Writing

open WidgetBridge.Text WidgetBridge.Mapping WidgetBridge.Number WidgetBridge.Config

/-! ## One element -/

/-- Whether children are a run of texts and slots that is more than a widget takes. -/
def isOverrun (entry : Entry) (cs : List Node) : Bool :=
  cs.all (fun c => !c.isElement) &&
    match entry.arity with
    | .leaf => !cs.isEmpty
    | .single => decide (1 < cs.length)
    | .multi => false

theorem countP_isElement_eq_zero_iff {cs : List Node} :
    cs.countP Node.isElement = 0 ↔ cs.all (fun c => !c.isElement) = true := by
  simp [List.countP_eq_zero]

theorem countP_isElement_eq_length_iff {cs : List Node} :
    cs.countP Node.isElement = cs.length ↔ cs.any (fun c => !c.isElement) = false := by
  simp [List.countP_eq_length]

/-- Children that validation accepts are refused if they are such a run, and only then. -/
theorem checkArity_eq_ok_iff {entry : Entry} {e : Element} {cs : List Node} {place : String}
    (h : Validation.checkArity entry e cs place = []) (path : String) :
    checkArity entry cs path = .ok () ↔ isOverrun entry cs = false := by
  unfold Validation.checkArity at h
  unfold checkArity isOverrun
  cases ha : entry.arity with
  | multi => simp
  | leaf =>
    simp only [ha] at h
    have hcount : cs.countP Node.isElement = 0 := by
      by_contra hne
      have hpos : cs.countP Node.isElement > 0 := Nat.pos_of_ne_zero hne
      simp [hpos] at h
    have hall := countP_isElement_eq_zero_iff.1 hcount
    cases cs with
    | nil => simp
    | cons c cs => simp [hall]
  | single =>
    simp only [ha] at h
    have hle : cs.countP Node.isElement + (if cs.any (fun c => !c.isElement) then 1 else 0) ≤
        1 := by
      by_contra hgt
      rw [if_pos (by omega)] at h
      cases h
    match cs with
    | [] => simp
    | [c] => simp
    | c :: c' :: rest =>
      -- Two children that count as one: if one were an element, all would be.
      have hall : (c :: c' :: rest).all (fun c => !c.isElement) = true := by
        rw [← countP_isElement_eq_zero_iff]
        by_contra hne
        have hnone : (c :: c' :: rest).any (fun c => !c.isElement) = false := by
          cases hany : (c :: c' :: rest).any (fun c => !c.isElement) with
          | false => rfl
          | true =>
            rw [hany, if_pos rfl] at hle
            omega
        have hlen := countP_isElement_eq_length_iff.2 hnone
        rw [hlen, List.length_cons, List.length_cons] at hle
        omega
      simp [hall]

/-- What is refused for its children is refused with a message about them. -/
theorem isArity_of_checkArity {entry : Entry} {cs : List Node} {path : String} {f : Failure}
    (h : checkArity entry cs path = .error f) : IsArity path f := by
  unfold checkArity at h
  split at h
  · cases h
    exact ⟨_, rfl, _, Or.inl rfl⟩
  · cases h
    exact ⟨_, rfl, _, Or.inr ⟨_, rfl⟩⟩
  · cases h

theorem IsArity.path_eq {path path' : String} {f : Failure} (h : IsArity path f)
    (h' : IsArity path' f) : path = path' := by
  obtain ⟨message, rfl, -⟩ := h
  obtain ⟨message', heq, -⟩ := h'
  cases heq
  rfl

/-! ## Trees -/

mutual

/-- The paths of the elements below a node that are refused for their runs where they are written.
The children of a router are written in the component model only. -/
def overruns (t : Table) (framework : Framework) (path : String) : Node → List String
  | .element e cs =>
    if e.widget == "Router" then
      if framework == .component then overrunsAll t framework path 0 cs else []
    else
      (if (Validation.entryOf? t e).any (isOverrun · cs) then [path] else []) ++
        overrunsAll t framework path 0 cs
  | _ => []

/-- The same for a list of children from an index on. -/
def overrunsAll (t : Table) (framework : Framework) (path : String) (index : Nat) :
    List Node → List String
  | [] => []
  | n :: ns => overruns t framework (Node.childPath path index) n ++
      overrunsAll t framework path (index + 1) ns

end

/-- Elements whose children validation accepts. -/
def Counted (t : Table) (places : List (String × Node)) : Prop :=
  ∀ path e cs, (path, .element e cs) ∈ places → ∀ entry, Validation.entryOf? t e = some entry →
    Validation.checkArity entry e cs path = []

theorem structural_of_mem_checkArity {entry : Entry} {e : Element} {cs : List Node} {path : String}
    {f : Validation.Finding} (h : f ∈ Validation.checkArity entry e cs path) :
    (f.concern == .structural) = true := by
  have hone : ∀ {p : Prop} [Decidable p] {g : Validation.Finding}, g.concern = .structural →
      f ∈ (if p then [g] else []) → (f.concern == .structural) = true := by
    intro p _ g hg hf
    split_ifs at hf
    · rw [List.mem_singleton.1 hf, hg]
      rfl
    · cases hf
  unfold Validation.checkArity at h
  cases ha : entry.arity with
  | leaf =>
    simp only [ha] at h
    exact hone rfl h
  | single =>
    simp only [ha] at h
    exact hone rfl h
  | multi =>
    simp only [ha] at h
    cases h

theorem counted_of_validate {t : Table} {d : Document} {root : Node} (hroot : d.root = some root)
    (h : (Validation.validate t d).isOk = true) : Counted t (root.walk "root") := by
  intro path e cs hmem entry hentry
  rw [List.eq_nil_iff_forall_not_mem]
  intro f hf
  have hnode : f ∈ Validation.checkNode t path (.element e cs) := by
    simp only [Validation.checkNode, Validation.checkElement, hentry, List.mem_append]
    exact Or.inr hf
  have hmem : f ∈ Validation.check t d := by
    rw [Validation.check_eq_flatMap t hroot]
    exact List.mem_flatMap.2 ⟨_, hmem, hnode⟩
  exact Validation.concern_ne_of_isOk h hmem (beq_iff_eq.1 (structural_of_mem_checkArity hf))

/-- The failures of a step whose arity failures are at given places. -/
def ArityWithin (places : List String) (f : Failure) : Prop :=
  ∀ path, IsArity path f → path ∈ places

theorem NotArity.within {f : Failure} (h : NotArity f) (places : List String) :
    ArityWithin places f := fun path hf => absurd hf (h path)

theorem ErrsAs.within {α : Type} {x : Attempt α} (h : ErrsAs x NotArity) (places : List String) :
    ErrsAs x (ArityWithin places) := fun f hf => (h f hf).within places

theorem ArityWithin.mono {places places' : List String} (h : places ⊆ places') {f : Failure}
    (hf : ArityWithin places f) : ArityWithin places' f := fun path hp => h (hf path hp)

theorem errsAs_checkArity {t : Table} {entry : Entry} {e : Element} {cs : List Node} {path : String}
    (hentry : Validation.entryOf? t e = some entry)
    (h : Validation.checkArity entry e cs path = []) (framework : Framework)
    (hrouter : e.widget ≠ "Router") :
    ErrsAs (checkArity entry cs path)
      (ArityWithin (overruns t framework path (.element e cs))) := by
  intro f hf place hplace
  have hpath : place = path := hplace.path_eq (isArity_of_checkArity hf)
  have hover : isOverrun entry cs = true := by
    by_contra hover
    rw [(checkArity_eq_ok_iff h path).2 (by simpa using hover)] at hf
    cases hf
  rw [overruns, if_neg (by simpa using hrouter), hentry, Option.any_some, if_pos hover, hpath]
  exact List.mem_append_left _ List.mem_cons_self

theorem failsAs_routerFragment (s : Setting) (e : Element) :
    FailsAs (routerFragment s e) NotArity := by
  have hwrite : ∀ f : Route.Fragment, FailsAs (do
      warn (f.warnings.map .remark)
      needAll f.imports
      modify fun d => { d with declarations := d.declarations ++ f.declarations }
      return f) NotArity := fun f =>
    (failsAs_modify _).bind fun _ => (failsAs_modify _).bind fun _ =>
      (failsAs_modify _).bind fun _ => failsAs_pure _
  unfold routerFragment
  dsimp only
  split
  · exact (failsAs_pure _).bind fun _ => hwrite _
  · split_ifs
    · exact failsAs_throw_bind (notArity_of_not_isGeneration rfl) _
    · exact (failsAs_pure _).bind fun _ => hwrite _
  · exact (failsAs_pure _).bind fun _ => hwrite _

theorem failsAs_placeholderName (s : Setting) (path : String) (e : Element) {P : Failure → Prop} :
    FailsAs (placeholderName s path e) P :=
  (failsAs_modify _).bind fun _ => failsAs_pure _

section Writers

variable {s : Setting} {path : String} {e : Element} {cs : List Node}

theorem overruns_router {t : Table} (h : e.widget = "Router") :
    overruns t .component path (.element e cs) = overrunsAll t .component path 0 cs := by
  rw [overruns, if_pos (by simpa using h), if_pos (by decide)]

theorem overruns_element {t : Table} {framework : Framework} (h : e.widget ≠ "Router") :
    overruns t framework path (.element e cs) =
      (if (Validation.entryOf? t e).any (isOverrun · cs) then [path] else []) ++
        overrunsAll t framework path 0 cs := by
  rw [overruns, if_neg (by simpa using h)]

theorem overrunsAll_subset {t : Table} {framework : Framework} (h : e.widget ≠ "Router") :
    overrunsAll t framework path 0 cs ⊆ overruns t framework path (.element e cs) := by
  rw [overruns_element h]
  exact List.subset_append_right _ _

theorem failsAs_componentElement {items : Bool → Writer (List String)}
    (hcount : ∀ entry, Validation.entryOf? s.environment.table e = some entry →
      Validation.checkArity entry e cs path = [])
    (hitems : ∀ inline, FailsAs (items inline)
      (ArityWithin (overrunsAll s.environment.table .component path 0 cs))) :
    FailsAs (componentElement s path e cs items)
      (ArityWithin (overruns s.environment.table .component path (.element e cs))) := by
  unfold componentElement
  by_cases hrouter : e.widget = "Router"
  · rw [overruns_router hrouter]
    simp only [hrouter, beq_self_eq_true, if_true]
    exact ((failsAs_routerFragment s e).imp fun f hf => hf.within _).bind fun _ =>
      (hitems false).bind fun _ => failsAs_pure _
  · have hitems : ∀ inline, FailsAs (items inline)
        (ArityWithin (overruns s.environment.table .component path (.element e cs))) :=
      fun inline => (hitems inline).imp fun f => ArityWithin.mono (overrunsAll_subset hrouter)
    simp only [beq_iff_eq, hrouter, if_false]
    cases hentry : Validation.entryOf? s.environment.table e with
    | none =>
      exact (failsAs_placeholderName s path e).bind fun _ =>
        (hitems false).bind fun _ => failsAs_pure _
    | some entry =>
      refine (failsAs_attempt (errsAs_checkArity hentry (hcount entry hentry) _ hrouter)).bind
        fun _ => ?_
      refine (failsAs_forIn (fun _ => failsAs_modify _) _).bind fun _ => ?_
      exact (hitems _).bind fun _ => failsAs_pure _

theorem Counted.children {t : Table} (h : Counted t ((Node.element e cs).walk path)) :
    Counted t (Node.walkAll path 0 cs) :=
  fun place e' cs' hmem => h place e' cs' (List.mem_cons_of_mem _ hmem)

theorem Counted.element {t : Table} (h : Counted t ((Node.element e cs).walk path)) :
    ∀ entry, Validation.entryOf? t e = some entry → Validation.checkArity entry e cs path = [] :=
  h path e cs List.mem_cons_self

theorem Counted.cons {t : Table} {index : Nat} {n : Node} {ns : List Node}
    (h : Counted t (Node.walkAll path index (n :: ns))) :
    Counted t (n.walk (Node.childPath path index)) ∧ Counted t (Node.walkAll path (index + 1) ns) :=
  ⟨fun place e' cs' hmem => h place e' cs' (List.mem_append_left _ hmem),
    fun place e' cs' hmem => h place e' cs' (List.mem_append_right _ hmem)⟩

mutual

/-- The component writer refuses the number of children only where a run is too long. -/
theorem failsAs_componentNode (s : Setting) (path : String) (inline : Bool) : (n : Node) →
    Counted s.environment.table (n.walk path) → FailsAs (componentNode s path inline n)
      (ArityWithin (overruns s.environment.table .component path n))
  | .text v, _ => failsAs_pure _
  | .slot source, _ => failsAs_pure _
  | .element e cs, h => by
    have helement : FailsAs (componentElement s path e cs fun inline =>
        componentNodes s path 0 inline cs) _ := failsAs_componentElement h.element
      fun inline => failsAs_componentNodes s path 0 inline cs h.children
    rw [componentNode]
    refine helement.bind fun inner => ?_
    cases e.motion with
    | none => exact failsAs_pure _
    | some motion =>
      exact (failsAs_modify _).bind fun _ =>
        (failsAs_attempt ((errsAs_around _ _ _ _).within _)).bind fun _ =>
        (failsAs_modify _).bind fun _ => failsAs_pure _

theorem failsAs_componentNodes (s : Setting) (path : String) (index : Nat) (inline : Bool) :
    (ns : List Node) → Counted s.environment.table (Node.walkAll path index ns) →
      FailsAs (componentNodes s path index inline ns)
        (ArityWithin (overrunsAll s.environment.table .component path index ns))
  | [], _ => failsAs_pure _
  | n :: ns, h => by
    have hfirst := failsAs_componentNode s (Node.childPath path index) inline n h.cons.1
    have hrest := failsAs_componentNodes s path (index + 1) inline ns h.cons.2
    rw [componentNodes, overrunsAll]
    exact (hfirst.imp fun f => ArityWithin.mono (List.subset_append_left _ _)).bind fun _ =>
      (hrest.imp fun f => ArityWithin.mono (List.subset_append_right _ _)).bind fun _ =>
      failsAs_pure _

end

theorem failsAs_argumentsFor (entry : Entry) (path : String) (places : List String)
    (a : Arguments) (props : Props) :
    FailsAs (argumentsFor entry path a props) (ArityWithin places) := by
  induction props generalizing a with
  | nil => exact failsAs_pure _
  | cons p props ih =>
    obtain ⟨name, v⟩ := p
    rw [argumentsFor]
    split_ifs
    · exact ih _
    · exact ih _
    · exact (failsAs_attempt ((errsAs_carryProp entry name v path).within _)).bind fun _ =>
        (failsAs_modify _).bind fun _ =>
        (failsAs_attempt ((errsAs_add _ _ _ _).within _)).bind fun _ => ih _

theorem failsAs_placeContent (entry : Entry) (a : Arguments) {items : Writer (List String)}
    {places : List String} (hitems : FailsAs items (ArityWithin places)) :
    FailsAs (placeContent s entry path a cs items) (ArityWithin places) := by
  have hrefuse : ArityWithin places
      (.generation (entry.target ++ " takes no widget children") path) :=
    (notArity_generation (by decide) _ _).within _
  have hslot : ∀ items, FailsAs (attempt (childArgument entry a s.indent items))
      (ArityWithin places) :=
    fun items => failsAs_attempt ((errsAs_childArgument _ _ _ _).within _)
  unfold placeContent
  dsimp only
  split
  · exact failsAs_pure _
  · exact failsAs_pure _
  · refine (failsAs_modify _).bind fun _ => ?_
    split_ifs
    · exact failsAs_throw_bind hrefuse _
    · exact (hslot _).bind fun _ => failsAs_pure _
  · split_ifs
    · exact failsAs_throw_bind hrefuse _
    · exact hitems.bind fun _ => (hslot _).bind fun _ => failsAs_pure _

theorem failsAs_widgetElement {items : Writer (List String)}
    (hcount : ∀ entry, Validation.entryOf? s.environment.table e = some entry →
      Validation.checkArity entry e cs path = [])
    (hitems : FailsAs items (ArityWithin (overrunsAll s.environment.table .widget path 0 cs))) :
    FailsAs (widgetElement s path e cs items)
      (ArityWithin (overruns s.environment.table .widget path (.element e cs))) := by
  unfold widgetElement
  by_cases hrouter : e.widget = "Router"
  · simp only [hrouter, beq_self_eq_true, if_true]
    refine ((failsAs_routerFragment s e).imp fun f hf => hf.within _).bind fun f => ?_
    split_ifs
    · exact (failsAs_modify _).bind fun _ => failsAs_pure _
    · exact failsAs_pure _
  · have hitems : FailsAs items
        (ArityWithin (overruns s.environment.table .widget path (.element e cs))) :=
      hitems.imp fun f => ArityWithin.mono (overrunsAll_subset hrouter)
    simp only [beq_iff_eq, hrouter, if_false]
    cases hentry : Validation.entryOf? s.environment.table e with
    | none =>
      exact (failsAs_placeholderName s path e).bind fun _ => hitems.bind fun _ => failsAs_pure _
    | some entry =>
      refine (failsAs_attempt (errsAs_checkArity hentry (hcount entry hentry) _ hrouter)).bind
        fun _ => ?_
      refine (failsAs_forIn (fun _ => failsAs_modify _) _).bind fun _ => ?_
      refine (failsAs_argumentsFor entry path _ _ _).bind fun a => ?_
      exact (failsAs_placeContent entry a hitems).bind fun _ => failsAs_pure _

mutual

/-- The widget writer refuses the number of children only where a run is too long. -/
theorem failsAs_widgetNode (s : Setting) (path : String) : (n : Node) →
    Counted s.environment.table (n.walk path) → FailsAs (widgetNode s path n)
      (ArityWithin (overruns s.environment.table .widget path n))
  | .text v, _ => failsAs_pure _
  | .slot source, _ => failsAs_pure _
  | .element e cs, h => by
    have helement : FailsAs (widgetElement s path e cs (widgetNodes s path 0 cs)) _ :=
      failsAs_widgetElement h.element (failsAs_widgetNodes s path 0 cs h.children)
    rw [widgetNode]
    refine helement.bind fun inner => ?_
    cases e.motion with
    | none => exact failsAs_pure _
    | some motion =>
      exact (failsAs_attempt ((errsAs_around _ _ _ _).within _)).bind fun _ =>
        (failsAs_modify _).bind fun _ => failsAs_pure _

theorem failsAs_widgetNodes (s : Setting) (path : String) (index : Nat) :
    (ns : List Node) → Counted s.environment.table (Node.walkAll path index ns) →
      FailsAs (widgetNodes s path index ns)
        (ArityWithin (overrunsAll s.environment.table .widget path index ns))
  | [], _ => failsAs_pure _
  | n :: ns, h => by
    have hfirst := failsAs_widgetNode s (Node.childPath path index) n h.cons.1
    have hrest := failsAs_widgetNodes s path (index + 1) ns h.cons.2
    rw [widgetNodes, overrunsAll]
    exact (hfirst.imp fun f => ArityWithin.mono (List.subset_append_left _ _)).bind fun _ =>
      (hrest.imp fun f => ArityWithin.mono (List.subset_append_right _ _)).bind fun _ =>
      failsAs_pure _

end

/-! ## No way past a run -/

theorem exists_element_of_overrunsAll {t : Table} {framework : Framework} {index : Nat}
    (h : overrunsAll t framework path index cs ≠ []) : cs.any Node.isElement = true := by
  induction cs generalizing index with
  | nil => exact absurd rfl h
  | cons c cs ih =>
    rw [overrunsAll] at h
    cases c with
    | element e' cs' => rfl
    | text v =>
      rw [overruns, List.nil_append] at h
      · simpa [Node.isElement] using ih h
      · intro _ _ heq
        cases heq
    | slot source =>
      rw [overruns, List.nil_append] at h
      · simpa [Node.isElement] using ih h
      · intro _ _ heq
        cases heq

theorem checkArity_of_isOverrun {entry : Entry} (h : isOverrun entry cs = true) (path : String) :
    ∃ f, checkArity entry cs path = .error f := by
  unfold isOverrun at h
  unfold checkArity
  rw [Bool.and_eq_true] at h
  cases ha : entry.arity with
  | leaf =>
    cases cs with
    | nil => simp [ha] at h
    | cons c cs => exact ⟨_, rfl⟩
  | single =>
    match cs with
    | [] => simp [ha] at h
    | [c] => simp [ha] at h
    | c :: c' :: rest => exact ⟨_, rfl⟩
  | multi => simp [ha] at h

theorem fails_componentElement {items : Bool → Writer (List String)}
    (hitems : overrunsAll s.environment.table .component path 0 cs ≠ [] →
      ∀ inline, Fails (items inline))
    (h : overruns s.environment.table .component path (.element e cs) ≠ []) :
    Fails (componentElement s path e cs items) := by
  unfold componentElement
  by_cases hrouter : e.widget = "Router"
  · rw [overruns_router hrouter] at h
    simp only [hrouter, beq_self_eq_true, if_true]
    exact fails_bind (fun _ => (hitems h false).bind _) _
  · rw [overruns_element hrouter] at h
    simp only [beq_iff_eq, hrouter, if_false]
    cases hentry : Validation.entryOf? s.environment.table e with
    | none =>
      rw [hentry, Option.any_none, if_neg (by decide), List.nil_append] at h
      exact fails_bind (fun _ => (hitems h false).bind _) _
    | some entry =>
      rw [hentry, Option.any_some] at h
      by_cases hover : isOverrun entry cs = true
      · obtain ⟨f, hf⟩ := checkArity_of_isOverrun hover path
        exact (fails_attempt hf).bind _
      · rw [if_neg hover, List.nil_append] at h
        refine fails_bind (fun _ => fails_bind (fun _ => ?_) _) _
        exact (hitems h _).bind _

/-- A run of texts and slots in the place of children is no place for elements below it. -/
theorem contentOf_of_any {entry : Entry} {text : Option PropValue}
    (h : cs.any Node.isElement = true) :
    contentOf entry text cs = .widgets := by
  cases cs with
  | nil => cases h
  | cons c cs => simp [contentOf, h]

theorem fails_widgetElement {items : Writer (List String)}
    (hitems : overrunsAll s.environment.table .widget path 0 cs ≠ [] → Fails items)
    (h : overruns s.environment.table .widget path (.element e cs) ≠ []) :
    Fails (widgetElement s path e cs items) := by
  unfold widgetElement
  by_cases hrouter : e.widget = "Router"
  · rw [overruns, if_pos (by simpa using hrouter), if_neg (by decide)] at h
    exact absurd rfl h
  · rw [overruns_element hrouter] at h
    simp only [beq_iff_eq, hrouter, if_false]
    cases hentry : Validation.entryOf? s.environment.table e with
    | none =>
      rw [hentry, Option.any_none, if_neg (by decide), List.nil_append] at h
      exact fails_bind (fun _ => (hitems h).bind _) _
    | some entry =>
      rw [hentry, Option.any_some] at h
      by_cases hover : isOverrun entry cs = true
      · obtain ⟨f, hf⟩ := checkArity_of_isOverrun hover path
        exact (fails_attempt hf).bind _
      · rw [if_neg hover, List.nil_append] at h
        refine fails_bind (fun _ => fails_bind (fun _ => fails_bind (fun a => ?_) _) _) _
        refine Fails.bind ?_ _
        -- The children are not a run, so they are written, unless there is no place for them.
        rw [placeContent]
        simp only [contentOf_of_any (exists_element_of_overrunsAll h)]
        split_ifs
        · exact (fails_throw _).bind _
        · exact (hitems h).bind _

mutual

/-- The component writer does not pass a run that is too long. -/
theorem fails_componentNode (s : Setting) (path : String) (inline : Bool) : (n : Node) →
    overruns s.environment.table .component path n ≠ [] → Fails (componentNode s path inline n)
  | .text v, h => absurd rfl h
  | .slot source, h => absurd rfl h
  | .element e cs, h => by
    rw [componentNode]
    exact (fails_componentElement
      (fun hcs inline => fails_componentNodes s path 0 inline cs hcs) h).bind _

theorem fails_componentNodes (s : Setting) (path : String) (index : Nat) (inline : Bool) :
    (ns : List Node) → overrunsAll s.environment.table .component path index ns ≠ [] →
      Fails (componentNodes s path index inline ns)
  | [], h => absurd rfl h
  | n :: ns, h => by
    rw [componentNodes]
    by_cases hn : overruns s.environment.table .component (Node.childPath path index) n = []
    · rw [overrunsAll, hn, List.nil_append] at h
      exact fails_bind (fun _ => (fails_componentNodes s path (index + 1) inline ns h).bind _) _
    · exact (fails_componentNode s _ inline n hn).bind _

end

mutual

/-- The widget writer does not pass a run that is too long. -/
theorem fails_widgetNode (s : Setting) (path : String) : (n : Node) →
    overruns s.environment.table .widget path n ≠ [] → Fails (widgetNode s path n)
  | .text v, h => absurd rfl h
  | .slot source, h => absurd rfl h
  | .element e cs, h => by
    rw [widgetNode]
    exact (fails_widgetElement (fails_widgetNodes s path 0 cs) h).bind _

theorem fails_widgetNodes (s : Setting) (path : String) (index : Nat) :
    (ns : List Node) → overrunsAll s.environment.table .widget path index ns ≠ [] →
      Fails (widgetNodes s path index ns)
  | [], h => absurd rfl h
  | n :: ns, h => by
    rw [widgetNodes]
    by_cases hn : overruns s.environment.table .widget (Node.childPath path index) n = []
    · rw [overrunsAll, hn, List.nil_append] at h
      exact fails_bind (fun _ => (fails_widgetNodes s path (index + 1) ns h).bind _) _
    · exact (fails_widgetNode s _ n hn).bind _

end

end Writers

/-! ## Documents -/

theorem failsAs_stateFragments (s : Setting) (root : Node) :
    FailsAs (stateFragments s root) NotArity :=
  (failsAs_attempt (errsAs_expandAll _ s.framework _)).bind fun _ =>
    (failsAs_forIn (fun _ => failsAs_modify _) _).bind fun _ => failsAs_pure _

theorem failsAs_carryDeclarations (same : Bool) (sources : List String) {P : Failure → Prop} :
    FailsAs (carryDeclarations same sources) P := by
  induction sources with
  | nil => exact failsAs_pure _
  | cons source rest ih =>
    rw [carryDeclarations]
    split_ifs
    · refine failsAs_get.bind fun d => ?_
      split
      · exact (failsAs_modify _).bind fun _ => ih
      · exact ih.bind fun _ => failsAs_pure _
    · exact ih
    · exact ih.bind fun _ => failsAs_pure _

theorem failsAs_allDeclarations (d : Document) (same : Bool) (fragments : List State.Fragment)
    {P : Failure → Prop} : FailsAs (allDeclarations d same fragments) P :=
  (failsAs_carryDeclarations same _).bind fun _ => failsAs_get.bind fun _ => failsAs_pure _

theorem failsAs_componentDocument {s : Setting} {e : Element} {cs : List Node}
    (h : Counted s.environment.table ((Node.element e cs).walk "root")) (d : Document) :
    FailsAs (componentDocument s d e cs)
      (ArityWithin (overruns s.environment.table .component "root" (.element e cs))) := by
  unfold componentDocument
  refine ((failsAs_stateFragments s _).imp fun f hf => hf.within _).bind fun fragments => ?_
  cases hmarkup : rootMarkup? e cs with
  | some source =>
    exact (failsAs_pure _).bind fun _ => (failsAs_allDeclarations _ _ _).bind fun _ =>
      failsAs_get.bind fun _ => failsAs_pure _
  | none =>
    exact (failsAs_componentNode s "root" false _ h).bind fun _ =>
      (failsAs_allDeclarations _ _ _).bind fun _ => failsAs_get.bind fun _ => failsAs_pure _

theorem failsAs_widgetDocument {s : Setting} {e : Element} {cs : List Node}
    (h : Counted s.environment.table ((Node.element e cs).walk "root")) (d : Document) :
    FailsAs (widgetDocument s d e cs)
      (ArityWithin (overruns s.environment.table .widget "root" (.element e cs))) := by
  have hform : ("root markup is a single expression with no widget form" : String) =
      "root markup is a single expression with no widget" ++ " form" := by decide
  unfold widgetDocument
  refine (failsAs_modify _).bind fun _ => ?_
  refine ((failsAs_stateFragments s _).imp fun f hf => hf.within _).bind fun fragments => ?_
  dsimp only
  split_ifs
  · rw [hform]
    exact failsAs_throw_bind ((notArity_generation (by decide) _ _).within _) _
  · exact (failsAs_widgetNode s "root" _ h).bind fun _ =>
      (failsAs_allDeclarations _ _ _).bind fun _ => failsAs_get.bind fun _ => failsAs_pure _

theorem fails_componentDocument {s : Setting} {e : Element} {cs : List Node}
    (hmarkup : rootMarkup? e cs = none)
    (h : overruns s.environment.table .component "root" (.element e cs) ≠ []) (d : Document) :
    Fails (componentDocument s d e cs) := by
  unfold componentDocument
  simp only [hmarkup]
  exact fails_bind (fun _ => (fails_componentNode s "root" false _ h).bind _) _

theorem fails_widgetDocument {s : Setting} {e : Element} {cs : List Node}
    (hmarkup : rootMarkup? e cs = none)
    (h : overruns s.environment.table .widget "root" (.element e cs) ≠ []) (d : Document) :
    Fails (widgetDocument s d e cs) := by
  unfold widgetDocument
  simp only [hmarkup, Option.isSome_none, Bool.false_eq_true, if_false]
  exact fails_bind (fun _ => fails_bind (fun _ => (fails_widgetNode s "root" _ h).bind _) _) _

/-- The writer of documents in a framework. -/
def documentWriter (env : Environment) (framework : Framework) (d : Document) (e : Element)
    (cs : List Node) : Writer String :=
  match framework with
  | .component => componentDocument ⟨env, framework, d.file⟩ d e cs
  | .widget => widgetDocument ⟨env, framework, d.file⟩ d e cs

theorem writeDocument_of_run {env : Environment} {framework : Framework} {d : Document}
    {e : Element} {cs : List Node} (hroot : d.root = some (.element e cs)) {o : Outcome String}
    (h : writeDocument env framework d = .ok o) :
    (∃ source draft, (documentWriter env framework d e cs).run.run {} = (.ok source, draft) ∧
      o.errors = []) ∨
    ∃ message path draft, (documentWriter env framework d e cs).run.run {} =
      (.error (.generation message path), draft) ∧
        o.errors = [.generation message path d.file] := by
  unfold writeDocument at h
  rw [hroot] at h
  dsimp only at h
  split at h
  · rename_i source draft hrun
    cases h
    exact Or.inl ⟨source, draft, hrun, rfl⟩
  · rename_i message path draft hrun
    cases h
    exact Or.inr ⟨message, path, draft, hrun, rfl⟩
  · cases h

/-- A validated document is refused for a number of children only at runs of texts and slots that
are too long, in both frameworks; and it is not written if there is such a run. -/
theorem writeDocument_arity (env : Environment) (framework : Framework) {d : Document} {e : Element}
    {cs : List Node} (hroot : d.root = some (.element e cs))
    (hvalid : (Validation.validate env.table d).isOk = true) :
    (∀ o message path file, writeDocument env framework d = .ok o →
      .generation message path file ∈ o.errors → ArityMessage message →
      path ∈ overruns env.table framework "root" (.element e cs)) ∧
    (rootMarkup? e cs = none → overruns env.table framework "root" (.element e cs) ≠ [] →
      ∀ o, writeDocument env framework d = .ok o → o.isOk = false) := by
  have hcounted := counted_of_validate hroot hvalid
  have hfailsAs : FailsAs (documentWriter env framework d e cs)
      (ArityWithin (overruns env.table framework "root" (.element e cs))) := by
    cases framework with
    | component => exact failsAs_componentDocument hcounted d
    | widget => exact failsAs_widgetDocument hcounted d
  constructor
  · intro o message path file ho hmem hmessage
    rcases writeDocument_of_run hroot ho with ⟨_, _, _, herrors⟩ | ⟨m, p, draft, hrun, herrors⟩
    · rw [herrors] at hmem
      cases hmem
    · rw [herrors, List.mem_singleton] at hmem
      cases hmem
      exact hfailsAs _ _ _ hrun path ⟨message, rfl, hmessage⟩
  · intro hmarkup hover o ho
    have hfails : Fails (documentWriter env framework d e cs) := by
      cases framework with
      | component => exact fails_componentDocument hmarkup hover d
      | widget => exact fails_widgetDocument hmarkup hover d
    obtain ⟨f, draft, hrun⟩ := hfails {}
    rcases writeDocument_of_run hroot ho with ⟨_, _, hok, _⟩ | ⟨m, p, _, _, herrors⟩
    · rw [hrun] at hok
      cases hok
    · simp [Outcome.isOk, herrors]

/-- A button with a text and a slot for its label. -/
def labelled : Document :=
  { framework := "componentModel", component := some "Doc"
    root := some (.element { widget := "Button" } [.text "Hi ", .slot "name"]) }

/-- The label counts as one child where it is validated, and as two where it is written. -/
theorem writeDocument_labelled :
    (Validation.validate Bundled.table labelled).isOk = true ∧
      ∀ framework, ∃ o, writeDocument {} framework labelled = .ok o ∧
        o.errors = [.generation "Button takes a single child, got 2" "root" "<memory>"] ∧
        ArityMessage "Button takes a single child, got 2" := by
  have hmessage : ArityMessage "Button takes a single child, got 2" :=
    ⟨"Button", Or.inr ⟨2, by decide⟩⟩
  refine ⟨by decide +kernel, fun framework => ?_⟩
  cases framework with
  | component => exact ⟨_, rfl, rfl, hmessage⟩
  | widget => exact ⟨_, rfl, rfl, hmessage⟩

/-- The only place where the label can be refused is the button. -/
theorem writeDocument_arity_labelled :
    labelled.root = some (.element { widget := "Button" } [.text "Hi ", .slot "name"]) ∧
      (Validation.validate Bundled.table labelled).isOk = true ∧
      overruns Bundled.table .widget "root"
        (.element { widget := "Button" } [.text "Hi ", .slot "name"]) = ["root"] ∧
      ∀ o, writeDocument {} .widget labelled = .ok o → o.isOk = false := by
  have hvalid : (Validation.validate Bundled.table labelled).isOk = true := by decide +kernel
  have hplaces : overruns Bundled.table .widget "root"
      (.element { widget := "Button" } [.text "Hi ", .slot "name"]) = ["root"] := by decide +kernel
  refine ⟨rfl, hvalid, hplaces, ?_⟩
  exact (writeDocument_arity {} .widget rfl hvalid).2 rfl (by rw [hplaces]; decide)

end WidgetBridge.Writing
