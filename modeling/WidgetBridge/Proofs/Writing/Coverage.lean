import WidgetBridge.Proofs.Writing.Arity

/-!
# Widgets without mapping

Three walks over a tree meet the elements that a table has nothing for: validation and the two
writers.  `unmappedPaths` lists where these elements stand, parents before children, and each of
the three reports exactly these places, in this order, once it succeeds.

* `Reports w paths` says what a step of writing reports when it succeeds, with one rule for each way
  of putting steps together;
* `unknownPath?_checkNode` is the report of validation about one node;
* `reports_componentNode` and `reports_widgetNode` follow the writers through a tree;
* `unknownPaths_writeDocument` puts the three together for whole documents.
-/

namespace WidgetBridge.Writing

open WidgetBridge.Text WidgetBridge.Mapping WidgetBridge.Config

/-! ## Places -/

/-- The paths that warnings about widgets without mapping name. -/
def unknownPaths (issues : List Issue) : List String :=
  issues.filterMap fun i =>
    match i with
    | .validation .unknownWidget path _ _ => some path
    | _ => none

/-- Whether a table has nothing for an element: it is a placeholder, or its name is neither that of
an entry nor an alias of one. -/
def isUnmapped (t : Table) (e : Element) : Bool :=
  e.isPlaceholder || ((t.get? e.widget).isNone && (t.forward? e.widget).isNone)

/-- The paths of the elements that a table has nothing for. -/
def unmappedPaths (t : Table) (places : List (String × Node)) : List String :=
  places.filterMap fun place =>
    match place.2 with
    | .element e _ => if isUnmapped t e then some place.1 else none
    | _ => none

theorem unknownPaths_append (a b : List Issue) :
    unknownPaths (a ++ b) = unknownPaths a ++ unknownPaths b := List.filterMap_append

theorem unknownPaths_eq_nil {issues : List Issue}
    (h : ∀ path message file, .validation .unknownWidget path message file ∉ issues) :
    unknownPaths issues = [] := by
  rw [unknownPaths, List.filterMap_eq_nil_iff]
  intro i hi
  split
  · exact absurd hi (h _ _ _)
  · rfl

theorem unknownPaths_remarks (texts : List String) : unknownPaths (texts.map .remark) = [] := by
  refine unknownPaths_eq_nil fun path message file h => ?_
  obtain ⟨text, -, heq⟩ := List.mem_map.1 h
  cases heq

theorem isUnmapped_eq (t : Table) (e : Element) :
    isUnmapped t e = (Validation.entryOf? t e).isNone := by
  unfold isUnmapped Validation.entryOf?
  split_ifs with h
  · simp [h]
  · cases t.get? e.widget <;> simp [h]

section Walks

variable {t : Table} {path : String} {e : Element} {cs : List Node}

theorem unmappedPaths_element : unmappedPaths t ((Node.element e cs).walk path) =
    (if (Validation.entryOf? t e).isNone then [path] else []) ++
      unmappedPaths t (Node.walkAll path 0 cs) := by
  rw [Node.walk, unmappedPaths, List.filterMap_cons]
  dsimp only
  rw [isUnmapped_eq]
  split_ifs <;> rfl

theorem unmappedPaths_cons {index : Nat} {n : Node} :
    unmappedPaths t (Node.walkAll path index (n :: cs)) =
      unmappedPaths t (n.walk (Node.childPath path index)) ++
        unmappedPaths t (Node.walkAll path (index + 1) cs) := by
  rw [Node.walkAll, unmappedPaths, List.filterMap_append]
  rfl

/-- Texts and slots have nothing to report. -/
theorem unmappedPaths_of_run (h : cs.any Node.isElement = false) (index : Nat) :
    unmappedPaths t (Node.walkAll path index cs) = [] := by
  induction cs generalizing index with
  | nil => rfl
  | cons n cs ih =>
    obtain ⟨hn, hcs⟩ := Bool.or_eq_false_iff.1 ((List.any_cons ..).symm.trans h)
    rw [unmappedPaths_cons, ih hcs]
    cases n with
    | element e' cs' => cases hn
    | text v => rfl
    | slot source => rfl

end Walks

/-! ## Reports of steps -/

/-- A step of writing that reports widgets without mapping at some paths whenever it succeeds. -/
def Reports {α : Type} (w : Writer α) (paths : List String) : Prop :=
  ∀ d a d', w.run.run d = (.ok a, d') → unknownPaths d'.warnings = unknownPaths d.warnings ++ paths

section Rules

variable {α β : Type} {p q : List String}

theorem reports_pure (a : α) : Reports (pure a) [] := by
  rintro d _ d' ⟨⟩
  exact (List.append_nil _).symm

theorem Reports.bind_of {P : α → Prop} {w : Writer α} (hw : Reports w p) (hP : ReturnsAs w P)
    {f : α → Writer β} (hf : ∀ a, P a → Reports (f a) q) : Reports (w >>= f) (p ++ q) := by
  intro d b d' hrun
  obtain ⟨a, d₁, hfirst, hrest⟩ := run_bind_ok hrun
  rw [hf a (hP d a d₁ hfirst) d₁ b d' hrest, hw d a d₁ hfirst, List.append_assoc]

theorem Reports.bind {w : Writer α} (hw : Reports w p) {f : α → Writer β}
    (hf : ∀ a, Reports (f a) q) : Reports (w >>= f) (p ++ q) :=
  hw.bind_of (returnsAs_true w) fun a _ => hf a

theorem Reports.bind_nil {w : Writer α} (hw : Reports w []) {f : α → Writer β}
    (hf : ∀ a, Reports (f a) q) : Reports (w >>= f) q := hw.bind hf

theorem Reports.then_nil {w : Writer α} (hw : Reports w p) {f : α → Writer β}
    (hf : ∀ a, Reports (f a) []) : Reports (w >>= f) p := by
  simpa using hw.bind hf

theorem reports_attempt (x : Attempt α) : Reports (attempt x) [] := by
  intro d a d' hrun
  obtain ⟨-, rfl⟩ := run_attempt_ok hrun
  exact (List.append_nil _).symm

theorem reports_throw (f : Failure) : Reports (throw f : Writer α) p := nofun

/-- Nothing is reported by a step that leaves the warnings alone. -/
theorem reports_modify {f : Draft → Draft} (h : ∀ d, (f d).warnings = d.warnings) :
    Reports (modify f : Writer Unit) [] := by
  intro d a d' hrun
  have hrun : (Except.ok (), f d) = (Except.ok a, d') := hrun
  cases hrun
  rw [h, List.append_nil]

theorem reports_get : Reports (get : Writer Draft) [] := by
  intro d a d' hrun
  have hrun : (Except.ok d, d) = (Except.ok a, d') := hrun
  cases hrun
  exact (List.append_nil _).symm

theorem reports_warn (issues : List Issue) : Reports (warn issues) (unknownPaths issues) := by
  intro d a d' hrun
  have hrun : (Except.ok (), { d with warnings := d.warnings ++ issues }) = (Except.ok a, d') :=
    hrun
  cases hrun
  exact unknownPaths_append _ _

theorem reports_remarks (texts : List String) : Reports (warn (texts.map .remark)) [] := by
  have h := reports_warn (texts.map .remark)
  rwa [unknownPaths_remarks] at h

theorem reports_forIn {γ : Type} {f : γ → Writer Unit} (hf : ∀ x, Reports (f x) []) (xs : List γ) :
    Reports (forIn xs PUnit.unit fun x _ => do f x; pure (.yield PUnit.unit)) [] := by
  induction xs with
  | nil => exact reports_pure _
  | cons x xs ih =>
    simp only [List.forIn_cons, bind_assoc, pure_bind]
    exact (hf x).bind_nil fun _ => ih

end Rules

theorem reports_need (module : String) (names : List String) : Reports (need module names) [] :=
  reports_modify fun _ => rfl

theorem reports_needAll (names : ModuleNames) : Reports (needAll names) [] :=
  reports_modify fun _ => rfl

theorem reports_placeholderName (s : Setting) (path : String) (e : Element) :
    Reports (placeholderName s path e) [path] :=
  (reports_warn _).then_nil fun _ => reports_pure _

/-! ## Validation -/

/-- The path of a finding about a widget without mapping. -/
def unknownPath? (f : Validation.Finding) : Option String :=
  if f.concern = .unknownWidget then some f.path else none

theorem unknownPath?_eq_none {f : Validation.Finding} (h : f.concern ≠ .unknownWidget) :
    unknownPath? f = none := if_neg h

theorem filterMap_unknownPath?_eq_nil {fs : List Validation.Finding}
    (h : ∀ f ∈ fs, f.concern ≠ .unknownWidget) : fs.filterMap unknownPath? = [] :=
  List.filterMap_eq_nil_iff.2 fun f hf => unknownPath?_eq_none (h f hf)

theorem concern_checkProp {entry : Option Entry} {path : String} {p : String × PropValue}
    {f : Validation.Finding} (hf : f ∈ Validation.checkProp entry path p) :
    f.concern ≠ .unknownWidget := by
  unfold Validation.checkProp at hf
  rcases List.mem_append.1 hf with h | h
  · split at h
    · split_ifs at h
      · cases h
      · rw [List.mem_singleton.1 h]
        nofun
    · cases h
  · split at h
    · split_ifs at h
      · cases h
      · rw [List.mem_singleton.1 h]
        nofun
    · cases h

theorem concern_checkArity {entry : Entry} {e : Element} {cs : List Node} {path : String}
    {f : Validation.Finding} (hf : f ∈ Validation.checkArity entry e cs path) :
    f.concern ≠ .unknownWidget := by
  have h := beq_iff_eq.1 (structural_of_mem_checkArity hf)
  rw [h]
  nofun

/-- The name of an element is reported if the table has nothing for the element.  A placeholder that
stands for nothing is an error instead. -/
theorem unknownPath?_checkName {t : Table} {e : Element} {path : String}
    (h : ∀ f ∈ Validation.checkName t e path, f.concern ≠ .structural) :
    (Validation.checkName t e path).filterMap unknownPath? =
      if (Validation.entryOf? t e).isNone then [path] else [] := by
  unfold Validation.checkName at h ⊢
  by_cases hplace : e.isPlaceholder = true
  · rw [if_pos hplace] at h ⊢
    have hentry : Validation.entryOf? t e = none := by
      rw [Validation.entryOf?, if_pos hplace]
    rw [hentry, if_pos Option.isNone_none]
    cases hname : e.standsFor with
    | none =>
      rw [hname] at h
      exact absurd rfl (h _ List.mem_cons_self)
    | some name =>
      rw [hname] at h
      dsimp only at h ⊢
      by_cases hempty : name.isEmpty = true
      · rw [if_pos hempty] at h
        exact absurd rfl (h _ List.mem_cons_self)
      · rw [if_neg hempty]
        rfl
  · rw [if_neg hplace]
    cases hentry : Validation.entryOf? t e with
    | none => rfl
    | some entry => rfl

theorem unknownPath?_checkNode {t : Table} {path : String} {n : Node}
    (h : ∀ f ∈ Validation.checkNode t path n, f.concern ≠ .structural) :
    (Validation.checkNode t path n).filterMap unknownPath? = unmappedPaths t [(path, n)] := by
  cases n with
  | text v => rfl
  | slot source => rfl
  | element e cs =>
    unfold Validation.checkNode Validation.checkElement at h ⊢
    dsimp only at h ⊢
    have hname := unknownPath?_checkName fun f hf =>
      h f (List.mem_append_left _ (List.mem_append_left _ hf))
    have hprops : (e.props.flatMap
        (Validation.checkProp (Validation.entryOf? t e) path)).filterMap unknownPath? = [] := by
      refine filterMap_unknownPath?_eq_nil fun f hf => ?_
      obtain ⟨p, -, hp⟩ := List.mem_flatMap.1 hf
      exact concern_checkProp hp
    rw [List.filterMap_append, List.filterMap_append, hname, hprops, unmappedPaths,
      List.filterMap_cons]
    dsimp only
    rw [isUnmapped_eq]
    cases Validation.entryOf? t e with
    | none => rfl
    | some entry =>
      exact filterMap_unknownPath?_eq_nil fun f hf => concern_checkArity hf

theorem unknownPath?_places {t : Table} {places : List (String × Node)}
    (h : ∀ f ∈ places.flatMap (fun place => Validation.checkNode t place.1 place.2),
      f.concern ≠ .structural) :
    (places.flatMap fun place => Validation.checkNode t place.1 place.2).filterMap unknownPath? =
      unmappedPaths t places := by
  induction places with
  | nil => rfl
  | cons place places ih =>
    rw [List.flatMap_cons] at h ⊢
    have hfirst := unknownPath?_checkNode fun f hf => h f (List.mem_append_left _ hf)
    have hrest := ih fun f hf => h f (List.mem_append_right _ hf)
    rw [List.filterMap_append, hfirst, hrest]
    exact List.filterMap_append.symm

theorem unknownPaths_issues (fs : List Validation.Finding) (file : String) :
    unknownPaths ((fs.filter fun f => !(f.concern == .structural)).map fun f =>
      .validation f.concern f.path f.message file) = fs.filterMap unknownPath? := by
  induction fs with
  | nil => rfl
  | cons f fs ih =>
    obtain ⟨concern, path, message⟩ := f
    cases concern with
    | structural => exact ih
    | unknownWidget => exact congrArg (path :: ·) ih
    | unresolvedProp => exact ih

/-- Validation reports the elements that the table has nothing for. -/
theorem unknownPaths_validate {t : Table} {d : Document} {root : Node} (hroot : d.root = some root)
    (h : (Validation.validate t d).isOk = true) :
    unknownPaths (Validation.validate t d).warnings = unmappedPaths t (root.walk "root") := by
  have hnone : ∀ f ∈ (root.walk "root").flatMap
      (fun place => Validation.checkNode t place.1 place.2), f.concern ≠ .structural := by
    rw [← Validation.check_eq_flatMap t hroot]
    exact fun f hf => Validation.concern_ne_of_isOk h hf
  rw [Validation.warnings_validate, unknownPaths_issues, Validation.check_eq_flatMap t hroot,
    unknownPath?_places hnone]

/-! ## Trees -/

/-- A tree without routers. -/
def RouterFree (places : List (String × Node)) : Prop :=
  ∀ path e cs, (path, .element e cs) ∈ places → e.widget ≠ "Router"

section Writers

variable {s : Setting} {path : String} {e : Element} {cs : List Node}

theorem RouterFree.element (h : RouterFree ((Node.element e cs).walk path)) : e.widget ≠ "Router" :=
  h path e cs List.mem_cons_self

theorem RouterFree.children (h : RouterFree ((Node.element e cs).walk path)) :
    RouterFree (Node.walkAll path 0 cs) :=
  fun place e' cs' hmem => h place e' cs' (List.mem_cons_of_mem _ hmem)

theorem RouterFree.cons {index : Nat} {n : Node}
    (h : RouterFree (Node.walkAll path index (n :: cs))) :
    RouterFree (n.walk (Node.childPath path index)) ∧
      RouterFree (Node.walkAll path (index + 1) cs) :=
  ⟨fun place e' cs' hmem => h place e' cs' (List.mem_append_left _ hmem),
    fun place e' cs' hmem => h place e' cs' (List.mem_append_right _ hmem)⟩

theorem reports_componentElement (hrouter : e.widget ≠ "Router")
    {items : Bool → Writer (List String)}
    (hitems : ∀ inline, Reports (items inline)
      (unmappedPaths s.environment.table (Node.walkAll path 0 cs))) :
    Reports (componentElement s path e cs items)
      (unmappedPaths s.environment.table ((Node.element e cs).walk path)) := by
  unfold componentElement
  simp only [beq_iff_eq, hrouter, if_false]
  rw [unmappedPaths_element]
  cases Validation.entryOf? s.environment.table e with
  | none =>
    refine (reports_placeholderName s path e).bind fun name => ?_
    exact (hitems false).then_nil fun _ => reports_pure _
  | some entry =>
    refine (reports_attempt _).bind_nil fun _ => ?_
    refine (reports_forIn (fun _ => reports_need _ _) _).bind_nil fun _ => ?_
    exact (hitems _).then_nil fun _ => reports_pure _

mutual

/-- The component writer reports the elements that the table has nothing for. -/
theorem reports_componentNode (s : Setting) (path : String) (inline : Bool) : (n : Node) →
    RouterFree (n.walk path) → Reports (componentNode s path inline n)
      (unmappedPaths s.environment.table (n.walk path))
  | .text v, _ => reports_pure _
  | .slot source, _ => reports_pure _
  | .element e cs, h => by
    have helement : Reports (componentElement s path e cs fun inline =>
        componentNodes s path 0 inline cs) _ := reports_componentElement h.element
      fun inline => reports_componentNodes s path 0 inline cs h.children
    rw [componentNode]
    refine helement.then_nil fun inner => ?_
    cases e.motion with
    | none => exact reports_pure _
    | some motion =>
      exact (reports_need _ _).bind_nil fun _ => (reports_attempt _).bind_nil fun _ =>
        (reports_remarks _).bind_nil fun _ => reports_pure _

theorem reports_componentNodes (s : Setting) (path : String) (index : Nat) (inline : Bool) :
    (ns : List Node) → RouterFree (Node.walkAll path index ns) →
      Reports (componentNodes s path index inline ns)
        (unmappedPaths s.environment.table (Node.walkAll path index ns))
  | [], _ => reports_pure _
  | n :: ns, h => by
    rw [componentNodes, unmappedPaths_cons]
    refine (reports_componentNode s _ inline n h.cons.1).bind fun _ => ?_
    exact (reports_componentNodes s path (index + 1) inline ns h.cons.2).then_nil
      fun _ => reports_pure _

end

theorem unknownPaths_carryProp {entry : Entry} {name : String} {v : PropValue} {path : String}
    {r : (String × PropValue) × List Issue} (h : entry.carryProp name v .forward path = .ok r) :
    unknownPaths r.2 = [] := by
  unfold Entry.carryProp at h
  dsimp only at h
  split at h
  · cases h
    dsimp only
    split_ifs <;> rfl
  · split at h
    · cases h
      rfl
    · cases h
      rfl
    · cases h

theorem reports_argumentsFor (entry : Entry) (path : String) (a : Arguments) (props : Props) :
    Reports (argumentsFor entry path a props) [] := by
  induction props generalizing a with
  | nil => exact reports_pure _
  | cons p props ih =>
    obtain ⟨name, v⟩ := p
    rw [argumentsFor]
    split_ifs
    · exact ih _
    · exact ih _
    · refine (reports_attempt _).bind_of (p := [])
        (returnsAs_attempt fun r hr => unknownPaths_carryProp hr) fun r hr => ?_
      obtain ⟨⟨target, mapped⟩, issues⟩ := r
      have hwarn := reports_warn issues
      rw [hr] at hwarn
      exact hwarn.bind_nil fun _ => (reports_attempt _).bind_nil fun _ => ih _

theorem any_isElement_of_run {entry : Entry} {text : Option PropValue} {nodes : List Node}
    (h : contentOf entry text cs = .run nodes) : cs.any Node.isElement = false := by
  by_contra hany
  rw [contentOf_of_any (by simpa using hany)] at h
  cases h

/-- A run of text takes the place of the children only where there is nothing to report below. -/
theorem reports_placeContent (entry : Entry) (a : Arguments) {items : Writer (List String)}
    (hitems : Reports items (unmappedPaths s.environment.table (Node.walkAll path 0 cs))) :
    Reports (placeContent s entry path a cs items)
      (unmappedPaths s.environment.table (Node.walkAll path 0 cs)) := by
  unfold placeContent
  dsimp only
  cases hcontent : contentOf entry a.text cs with
  | run nodes =>
    rw [unmappedPaths_of_run (any_isElement_of_run hcontent)]
    cases entry.textMode with
    | positional => exact reports_pure _
    | wrap => exact reports_pure _
    | none =>
      refine (reports_need _ _).bind_nil fun _ => ?_
      split_ifs
      · exact (reports_throw _).bind_nil fun _ => (reports_attempt _).bind_nil fun _ =>
          reports_pure _
      · exact (reports_attempt _).bind_nil fun _ => reports_pure _
  | widgets =>
    dsimp only
    split_ifs
    · exact (reports_throw _).bind_nil fun _ =>
        hitems.then_nil fun _ => (reports_attempt _).bind_nil fun _ => reports_pure _
    · exact hitems.then_nil fun _ => (reports_attempt _).bind_nil fun _ => reports_pure _

theorem reports_widgetElement (hrouter : e.widget ≠ "Router") {items : Writer (List String)}
    (hitems : Reports items (unmappedPaths s.environment.table (Node.walkAll path 0 cs))) :
    Reports (widgetElement s path e cs items)
      (unmappedPaths s.environment.table ((Node.element e cs).walk path)) := by
  unfold widgetElement
  simp only [beq_iff_eq, hrouter, if_false]
  rw [unmappedPaths_element]
  cases Validation.entryOf? s.environment.table e with
  | none =>
    refine (reports_placeholderName s path e).bind fun name => ?_
    exact hitems.then_nil fun _ => reports_pure _
  | some entry =>
    refine (reports_attempt _).bind_nil fun _ => ?_
    refine (reports_forIn (fun _ => reports_need _ _) _).bind_nil fun _ => ?_
    refine (reports_argumentsFor entry path _ _).bind_nil fun a => ?_
    exact (reports_placeContent entry a hitems).then_nil fun _ => reports_pure _

mutual

/-- The widget writer reports the elements that the table has nothing for. -/
theorem reports_widgetNode (s : Setting) (path : String) : (n : Node) → RouterFree (n.walk path) →
    Reports (widgetNode s path n) (unmappedPaths s.environment.table (n.walk path))
  | .text v, _ => reports_pure _
  | .slot source, _ => reports_pure _
  | .element e cs, h => by
    have helement : Reports (widgetElement s path e cs (widgetNodes s path 0 cs)) _ :=
      reports_widgetElement h.element (reports_widgetNodes s path 0 cs h.children)
    rw [widgetNode]
    refine helement.then_nil fun inner => ?_
    cases e.motion with
    | none => exact reports_pure _
    | some motion =>
      exact (reports_attempt _).bind_nil fun _ => (reports_remarks _).bind_nil fun _ =>
        reports_pure _

theorem reports_widgetNodes (s : Setting) (path : String) (index : Nat) : (ns : List Node) →
    RouterFree (Node.walkAll path index ns) → Reports (widgetNodes s path index ns)
      (unmappedPaths s.environment.table (Node.walkAll path index ns))
  | [], _ => reports_pure _
  | n :: ns, h => by
    rw [widgetNodes, unmappedPaths_cons]
    refine (reports_widgetNode s _ n h.cons.1).bind fun _ => ?_
    exact (reports_widgetNodes s path (index + 1) ns h.cons.2).then_nil fun _ => reports_pure _

end

end Writers

/-! ## Documents -/

theorem reports_stateFragments (s : Setting) (root : Node) : Reports (stateFragments s root) [] :=
  (reports_attempt _).bind_nil fun _ =>
    (reports_forIn (fun _ => reports_needAll _) _).bind_nil fun _ => reports_pure _

theorem reports_carryDeclarations (same : Bool) (sources : List String) :
    Reports (carryDeclarations same sources) [] := by
  induction sources with
  | nil => exact reports_pure _
  | cons source rest ih =>
    rw [carryDeclarations]
    split_ifs
    · refine reports_get.bind_nil fun d => ?_
      split
      · refine Reports.bind_nil (reports_modify ?_) fun _ => ih
        exact fun _ => rfl
      · exact ih.bind_nil fun _ => reports_pure _
    · exact ih
    · exact ih.bind_nil fun _ => reports_pure _

theorem reports_allDeclarations (d : Document) (same : Bool) (fragments : List State.Fragment) :
    Reports (allDeclarations d same fragments) [] :=
  (reports_carryDeclarations same _).bind_nil fun _ => reports_get.bind_nil fun _ => reports_pure _

theorem reports_documentWriter {env : Environment} {e : Element} {cs : List Node}
    (hrouter : RouterFree ((Node.element e cs).walk "root")) (hmarkup : rootMarkup? e cs = none)
    (framework : Framework) (d : Document) :
    Reports (documentWriter env framework d e cs)
      (unmappedPaths env.table ((Node.element e cs).walk "root")) := by
  cases framework with
  | component =>
    unfold documentWriter componentDocument
    simp only [hmarkup]
    refine (reports_stateFragments _ _).bind_nil fun fragments => ?_
    refine (reports_componentNode _ "root" false _ hrouter).then_nil fun markup => ?_
    exact (reports_allDeclarations _ _ _).bind_nil fun _ => reports_get.bind_nil fun _ =>
      reports_pure _
  | widget =>
    unfold documentWriter widgetDocument
    simp only [hmarkup, Option.isSome_none, Bool.false_eq_true, if_false]
    refine (reports_need _ _).bind_nil fun _ => ?_
    refine (reports_stateFragments _ _).bind_nil fun fragments => ?_
    refine (reports_widgetNode _ "root" _ hrouter).then_nil fun markup => ?_
    exact (reports_allDeclarations _ _ _).bind_nil fun _ => reports_get.bind_nil fun _ =>
      reports_pure _

theorem run_of_isOk {env : Environment} {framework : Framework} {d : Document} {e : Element}
    {cs : List Node} (hroot : d.root = some (.element e cs)) {o : Outcome String}
    (h : writeDocument env framework d = .ok o) (hok : o.isOk = true) :
    ∃ source draft, (documentWriter env framework d e cs).run.run {} = (.ok source, draft) ∧
      o = .success source draft.warnings := by
  unfold writeDocument at h
  rw [hroot] at h
  dsimp only at h
  split at h
  · rename_i source draft hrun
    cases h
    exact ⟨source, draft, hrun, rfl⟩
  · cases h
    cases hok
  · cases h

/-- Validation and the writers of both frameworks report the same widgets without mapping, in the
same order: the elements that the table has nothing for, parents before children.  The tree holds no
routers, and the root does not hold its markup as one expression. -/
theorem unknownPaths_writeDocument (env : Environment) (framework : Framework) {d : Document}
    {root : Node} (hroot : d.root = some root) (hrouter : RouterFree (root.walk "root"))
    (hmarkup : ∀ e cs, root = .element e cs → rootMarkup? e cs = none)
    (hvalid : (Validation.validate env.table d).isOk = true) {o : Outcome String}
    (ho : writeDocument env framework d = .ok o) (hok : o.isOk = true) :
    unknownPaths (Validation.validate env.table d).warnings =
        unmappedPaths env.table (root.walk "root") ∧
      unknownPaths o.warnings = unmappedPaths env.table (root.walk "root") := by
  refine ⟨unknownPaths_validate hroot hvalid, ?_⟩
  cases root with
  | element e cs =>
    obtain ⟨source, draft, hrun, rfl⟩ := run_of_isOk hroot ho hok
    have h := reports_documentWriter hrouter (hmarkup e cs rfl) framework d _ _ _ hrun
    exact h
  | text v =>
    rw [writeDocument, hroot] at ho
    cases ho
    cases hok
  | slot source =>
    rw [writeDocument, hroot] at ho
    cases ho
    cases hok

/-- A view with two widgets of no table and a placeholder. -/
def sketch : Node :=
  .element { widget := "View" } [.text "Speed",
    .element { widget := "Gauge" } [.element (.placeholder "Needle" []) []],
    .element { widget := "Center" } [.element { widget := "Dial" } []]]

set_option maxRecDepth 2000 in
theorem unknownPaths_writeDocument_sketch :
    ∃ o, writeDocument {} .widget { framework := "componentModel", root := some sketch } = .ok o ∧
      o.isOk = true ∧ unknownPaths o.warnings =
        ["root.children[1]", "root.children[1].children[0]", "root.children[2].children[0]"] := by
  have hrouter : RouterFree (sketch.walk "root") := by
    intro path e cs h
    simp only [sketch, Node.walk, Node.walkAll, List.append_nil, List.cons_append, List.nil_append,
      List.mem_cons, Prod.mk.injEq, Node.element.injEq, reduceCtorEq, and_false, false_or,
      List.not_mem_nil, or_false] at h
    rcases h with ⟨-, rfl, -⟩ | ⟨-, rfl, -⟩ | ⟨-, rfl, -⟩ | ⟨-, rfl, -⟩ | ⟨-, rfl, -⟩ <;> decide
  have hplaces : unmappedPaths Bundled.table (sketch.walk "root") =
      ["root.children[1]", "root.children[1].children[0]", "root.children[2].children[0]"] := by
    decide +kernel
  have hvalid : (Validation.validate Bundled.table
      { framework := "componentModel", root := some sketch }).isOk = true := by decide +kernel
  obtain ⟨o, ho, hok⟩ : ∃ o, writeDocument {} .widget
      { framework := "componentModel", root := some sketch } = .ok o ∧ o.isOk = true :=
    ⟨_, rfl, rfl⟩
  have h := unknownPaths_writeDocument {} .widget rfl hrouter
    (fun e cs heq => by cases heq; rfl) hvalid ho hok
  exact ⟨o, ho, hok, h.2.trans hplaces⟩

end WidgetBridge.Writing
