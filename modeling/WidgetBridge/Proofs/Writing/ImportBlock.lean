import Mathlib.Logic.Relation
import WidgetBridge.Proofs.Imports
import WidgetBridge.Proofs.Writing.Coverage

/-!
# The import block

The writers collect imports while they walk a tree, and the import block at the head of the source
is what was collected, sorted.  So the block depends on the elements of the tree and not on the
order in which they are met:

* `gather` lists what the elements of a tree contribute, and `Reordered.perm_gather` says that
  children in another order contribute the same;
* `Asks base w asks` says which imports a step of writing asks for when it succeeds, with one rule
  for each way of putting steps together, and `asks_componentNode` and `asks_widgetNode` follow the
  writers through a tree;
* `imports_documentWriter` gives the imports of a written document in terms of its tree, and
  `importLines_writeDocument` compares two documents.
-/

namespace WidgetBridge

/-! ## Trees in another order -/

namespace Node

/-- The children of one element, at any depth, stand in another order. -/
inductive Shuffles : Node → Node → Prop
  | top (e : Element) {cs cs' : List Node} (h : cs.Perm cs') :
    Shuffles (.element e cs) (.element e cs')
  | deeper (e : Element) (before after : List Node) {n n' : Node} (h : Shuffles n n') :
    Shuffles (.element e (before ++ n :: after)) (.element e (before ++ n' :: after))

/-- Two trees that differ only in the order of the children of elements, at any depth. -/
def Reordered : Node → Node → Prop := Relation.ReflTransGen Shuffles

section Gathering

variable {α : Type} (own : Element → List α) (hides : Element → Bool)

mutual

/-- What the elements of a tree contribute.  Nothing counts below elements that hide their
children. -/
def gather : Node → List α
  | .element e cs => own e ++ (if hides e then [] else gatherAll cs)
  | .text _ => []
  | .slot _ => []

/-- What the elements of trees contribute. -/
def gatherAll : List Node → List α
  | [] => []
  | n :: ns => gather n ++ gatherAll ns

end

variable {own hides} {n n' : Node}

theorem gatherAll_eq_flatMap (ns : List Node) :
    gatherAll own hides ns = ns.flatMap (gather own hides) := by
  induction ns with
  | nil => rfl
  | cons n ns ih => rw [gatherAll, ih, List.flatMap_cons]

/-- Texts and slots contribute nothing. -/
theorem gatherAll_of_run {ns : List Node} (h : ns.any isElement = false) :
    gatherAll own hides ns = [] := by
  rw [gatherAll_eq_flatMap, List.flatMap_eq_nil_iff]
  intro n hn
  cases n with
  | element e cs =>
    exact absurd (List.any_eq_true.2 ⟨_, hn, rfl⟩) (by rw [h]; exact Bool.false_ne_true)
  | text v => rfl
  | slot source => rfl

theorem Shuffles.perm_gather (h : Shuffles n n') :
    (gather own hides n).Perm (gather own hides n') := by
  induction h with
  | top e hcs =>
    rw [gather, gather, gatherAll_eq_flatMap, gatherAll_eq_flatMap]
    apply List.Perm.append_left
    split_ifs
    · exact .nil
    · exact hcs.flatMap_right _
  | deeper e before after _ ih =>
    rw [gather, gather, gatherAll_eq_flatMap, gatherAll_eq_flatMap]
    apply List.Perm.append_left
    split_ifs
    · exact .nil
    · rw [List.flatMap_append, List.flatMap_append, List.flatMap_cons, List.flatMap_cons]
      exact (ih.append_right _).append_left _

/-- Children in another order contribute the same. -/
theorem Reordered.perm_gather (h : Reordered n n') :
    (gather own hides n).Perm (gather own hides n') := by
  induction h with
  | refl => exact .refl _
  | tail _ hlast ih => exact ih.trans hlast.perm_gather

end Gathering

end Node

namespace Writing

open WidgetBridge.Text WidgetBridge.Mapping WidgetBridge.Config

mutual

theorem bindings_walk (path : String) : (n : Node) →
    ((n.walk path).flatMap fun (_, n) =>
      match n with
      | .element e _ => e.bindings
      | _ => []) = n.gather (·.bindings) fun _ => false
  | .element e cs => by
    rw [Node.walk, List.flatMap_cons, bindings_walkAll path 0 cs, Node.gather]
    rfl
  | .text v => rfl
  | .slot source => rfl

theorem bindings_walkAll (path : String) (index : Nat) : (ns : List Node) →
    ((Node.walkAll path index ns).flatMap fun (_, n) =>
      match n with
      | .element e _ => e.bindings
      | _ => []) = Node.gatherAll (·.bindings) (fun _ => false) ns
  | [] => rfl
  | n :: ns => by
    rw [Node.walkAll, List.flatMap_append, bindings_walk _ n, bindings_walkAll path (index + 1) ns,
      Node.gatherAll]

end

theorem bindingsOf_eq_gather (root : Node) :
    bindingsOf root = root.gather (·.bindings) fun _ => false :=
  bindings_walk "root" root

/-- The expression that a tree holds as its markup. -/
def markupOf? : Node → Option String
  | .element e cs => rootMarkup? e cs
  | _ => none

theorem rootMarkup?_eq_none (e : Element) {cs : List Node} (h : ∀ source, cs ≠ [.slot source]) :
    rootMarkup? e cs = none := by
  unfold rootMarkup?
  split
  · exact absurd rfl (h _)
  · rfl

theorem ne_slot_of_mem {cs : List Node} {n : Node} (hn : n ∈ cs) (helement : n.isElement = true)
    (source : String) : cs ≠ [.slot source] := by
  rintro rfl
  rw [List.mem_singleton.1 hn] at helement
  cases helement

/-- The expression that a tree holds as its markup has no order to change. -/
theorem markupOf?_of_reordered {n n' : Node} (h : n.Reordered n') : markupOf? n = markupOf? n' := by
  induction h with
  | refl => rfl
  | tail _ hlast ih =>
    rw [ih]
    cases hlast with
    | @top e cs cs' hcs =>
      rw [markupOf?, markupOf?]
      by_cases hslot : ∃ source, cs = [.slot source]
      · obtain ⟨source, rfl⟩ := hslot
        rw [List.singleton_perm.1 hcs]
      · rw [not_exists] at hslot
        have hslot' : ∀ source, cs' ≠ [.slot source] := by
          rintro source rfl
          exact hslot source (List.perm_singleton.1 hcs)
        rw [rootMarkup?_eq_none e hslot, rootMarkup?_eq_none e hslot']
    | @deeper e before after n n' hn =>
      have helement : n.isElement = true ∧ n'.isElement = true := by
        cases hn
        · exact ⟨rfl, rfl⟩
        · exact ⟨rfl, rfl⟩
      rw [markupOf?, markupOf?,
        rootMarkup?_eq_none e
          (ne_slot_of_mem (List.mem_append_right _ List.mem_cons_self) helement.1),
        rootMarkup?_eq_none e
          (ne_slot_of_mem (List.mem_append_right _ List.mem_cons_self) helement.2)]

/-! ## Steps that ask for imports -/

/-- A step of writing that asks for imports whenever it succeeds.  What `base` holds was asked for
before and may be asked for again. -/
def Asks {α : Type} (base : ModuleNames) (w : Writer α) (asks : ModuleNames) : Prop :=
  ∀ d a d', w.run.run d = (.ok a, d') → ∃ more, d'.imports = d.imports.merge more ∧
    ∀ x, x ∈ base ++ more ↔ x ∈ base ++ asks

section Rules

variable {α β : Type} {base p q : ModuleNames}

/-- Nothing is asked for by a step that leaves the imports alone. -/
theorem asks_nil {w : Writer α} (h : ∀ d a d', w.run.run d = (.ok a, d') → d'.imports = d.imports) :
    Asks base w [] := fun d a d' hrun => ⟨[], h d a d' hrun, fun _ => .rfl⟩

theorem asks_pure (a : α) : Asks base (pure a) [] := asks_nil <| by
  rintro d _ d' ⟨⟩
  rfl

theorem asks_attempt (x : Attempt α) : Asks base (attempt x) [] := asks_nil fun d a d' hrun => by
  rw [(run_attempt_ok hrun).2]

theorem asks_throw (f : Failure) : Asks base (throw f : Writer α) p := nofun

theorem asks_warn (issues : List Issue) : Asks base (warn issues) [] := asks_nil <| by
  rintro d _ d' ⟨⟩
  rfl

theorem asks_needAll (names : ModuleNames) : Asks base (needAll names) names := by
  rintro d _ d' ⟨⟩
  exact ⟨names, rfl, fun _ => .rfl⟩

theorem asks_need (module : String) (names : List String) :
    Asks base (need module names) [(module, names)] := asks_needAll [(module, names)]

theorem Asks.congr {w : Writer α} (h : Asks base w p) (hpq : ∀ x, x ∈ base ++ p ↔ x ∈ base ++ q) :
    Asks base w q := fun d a d' hrun =>
  let ⟨more, himports, hmore⟩ := h d a d' hrun
  ⟨more, himports, fun x => (hmore x).trans (hpq x)⟩

theorem Asks.bind {w : Writer α} (hw : Asks base w p) {f : α → Writer β}
    (hf : ∀ a, Asks base (f a) q) : Asks base (w >>= f) (p ++ q) := by
  intro d b d' hrun
  obtain ⟨a, d₁, hfirst, hrest⟩ := run_bind_ok hrun
  obtain ⟨more, himports, hmore⟩ := hw d a d₁ hfirst
  obtain ⟨more', himports', hmore'⟩ := hf a d₁ b d' hrest
  refine ⟨more ++ more', by rw [himports', himports, Imports.merge_append], fun x => ?_⟩
  simp only [List.mem_append] at hmore hmore' ⊢
  rw [← or_assoc, hmore, or_assoc, or_left_comm, hmore', or_left_comm]

theorem Asks.bind_nil {w : Writer α} (hw : Asks base w []) {f : α → Writer β}
    (hf : ∀ a, Asks base (f a) q) : Asks base (w >>= f) q := hw.bind hf

theorem Asks.then_nil {w : Writer α} (hw : Asks base w p) {f : α → Writer β}
    (hf : ∀ a, Asks base (f a) []) : Asks base (w >>= f) p := by
  simpa using hw.bind hf

theorem asks_forIn {γ : Type} {f : γ → Writer Unit} {g : γ → ModuleNames}
    (hf : ∀ x, Asks base (f x) (g x)) (xs : List γ) :
    Asks base (forIn xs PUnit.unit fun x _ => do f x; pure (.yield PUnit.unit)) (xs.flatMap g) := by
  induction xs with
  | nil => exact asks_pure _
  | cons x xs ih =>
    simp only [List.forIn_cons, bind_assoc, pure_bind]
    exact (hf x).bind fun _ => ih

end Rules

/-! ## What elements ask for -/

/-- The imports of the routes that an element holds. -/
def routeImports (env : Environment) (framework : Framework) (e : Element) : ModuleNames :=
  let schema := match e.attached.get? "routes" with
    | some (.routes schema) => schema
    | _ => { routes := [] }
  (Route.emit framework schema env.settings.unauthorizedRoute env.settings.indent).imports

/-- The imports that the widget of an entry asks for. -/
def entryImports (env : Environment) (entry : Entry) : Framework → ModuleNames
  | .component =>
    let modules := entry.importsFor Framework.component.name
    (if modules.isEmpty then [env.settings.componentModule] else modules).map
      fun module => (module, [entry.source])
  | .widget => (entry.importsFor Framework.widget.name).map fun module => (module, [])

/-- The imports that an element asks for without its children and its motion. -/
def elementImports (env : Environment) (framework : Framework) (e : Element) : ModuleNames :=
  if e.widget == "Router" then routeImports env framework e
  else
    match Validation.entryOf? env.table e with
    | none => []
    | some entry => entryImports env entry framework

/-- The imports that the motion of an element asks for. -/
def motionImports (framework : Framework) (e : Element) : ModuleNames :=
  if framework = .component ∧ e.motion.isSome then [(motionModule, ["motion"])] else []

/-- Whether the children of an element are not written: a router widget shows its routes only. -/
def hidesChildren (framework : Framework) (e : Element) : Bool :=
  framework == .widget && e.widget == "Router"

/-- The imports that a tree asks for. -/
def treeImports (env : Environment) (framework : Framework) : Node → ModuleNames :=
  Node.gather (fun e => elementImports env framework e ++ motionImports framework e)
    (hidesChildren framework)

/-- The imports that trees ask for. -/
def treesImports (env : Environment) (framework : Framework) : List Node → ModuleNames :=
  Node.gatherAll (fun e => elementImports env framework e ++ motionImports framework e)
    (hidesChildren framework)

theorem treeImports_element (env : Environment) (framework : Framework) (e : Element)
    (cs : List Node) : treeImports env framework (.element e cs) =
      elementImports env framework e ++ motionImports framework e ++
        if hidesChildren framework e then [] else treesImports env framework cs := rfl

theorem treesImports_cons (env : Environment) (framework : Framework) (n : Node) (ns : List Node) :
    treesImports env framework (n :: ns) =
      treeImports env framework n ++ treesImports env framework ns := rfl

section Writers

variable {env : Environment} {cs : List Node} {base : ModuleNames}

theorem asks_routerFragment (framework : Framework) (file : String) (e : Element) :
    Asks base (routerFragment ⟨env, framework, file⟩ e) (routeImports env framework e) := by
  have hwritten (schema : Route.Schema) : Asks base (do
      let f := Route.emit framework schema env.settings.unauthorizedRoute env.settings.indent
      warn (f.warnings.map .remark)
      needAll f.imports
      modify fun d => { d with declarations := d.declarations ++ f.declarations }
      return f) (Route.emit framework schema env.settings.unauthorizedRoute
        env.settings.indent).imports := by
    refine (asks_warn _).bind_nil fun _ => (asks_needAll _).then_nil fun _ => ?_
    refine Asks.bind_nil (asks_nil ?_) fun _ => asks_pure _
    rintro d _ d' ⟨⟩
    rfl
  unfold routerFragment routeImports
  cases e.attached.get? "routes" with
  | none => exact hwritten _
  | some attachment =>
    cases attachment with
    | routes schema => exact hwritten schema
    | data v =>
      dsimp only
      split_ifs
      · exact nofun
      · exact hwritten _

theorem asks_componentElement (file path : String) (e : Element)
    {items : Bool → Writer (List String)}
    (hitems : ∀ inline, Asks base (items inline) (treesImports env .component cs)) :
    Asks base (componentElement ⟨env, .component, file⟩ path e cs items)
      (elementImports env .component e ++ treesImports env .component cs) := by
  unfold componentElement elementImports
  split_ifs
  · exact (asks_routerFragment _ file e).bind fun f => (hitems false).then_nil fun _ => asks_pure _
  · cases Validation.entryOf? env.table e with
    | none =>
      refine Asks.bind_nil ((asks_warn _).bind_nil fun _ => asks_pure _) fun name => ?_
      exact (hitems false).then_nil fun _ => asks_pure _
    | some entry =>
      dsimp only
      rw [entryImports, List.map_eq_flatMap]
      refine (asks_attempt _).bind_nil fun _ => ?_
      refine (asks_forIn (fun module => asks_need module [entry.source]) _).bind fun _ => ?_
      exact (hitems _).then_nil fun _ => asks_pure _

mutual

/-- The component writer asks for what the elements of a tree ask for. -/
theorem asks_componentNode (base : ModuleNames) (env : Environment) (file path : String)
    (inline : Bool) : (n : Node) →
    Asks base (componentNode ⟨env, .component, file⟩ path inline n) (treeImports env .component n)
  | .text v => asks_pure _
  | .slot source => asks_pure _
  | .element e cs => by
    have helement := asks_componentElement file path e
      fun inline => asks_componentNodes base env file path 0 inline cs
    rw [componentNode, treeImports_element, motionImports]
    cases hmotion : e.motion with
    | none =>
      refine (helement.then_nil fun inner => asks_pure inner).congr fun x => ?_
      simp [hidesChildren]
    | some motion =>
      have hwrapped := helement.bind fun inner =>
        (asks_need motionModule ["motion"]).then_nil fun _ =>
          (asks_attempt (Motion.around .component motion inner env.settings.indent)).bind_nil
            fun w => (asks_warn (w.warnings.map .remark)).bind_nil fun _ => asks_pure w.text
      refine hwrapped.congr fun x => ?_
      simp [hidesChildren, or_comm, or_left_comm]

theorem asks_componentNodes (base : ModuleNames) (env : Environment) (file path : String)
    (index : Nat) (inline : Bool) : (ns : List Node) →
    Asks base (componentNodes ⟨env, .component, file⟩ path index inline ns)
      (treesImports env .component ns)
  | [] => asks_pure _
  | n :: ns => by
    rw [componentNodes, treesImports_cons]
    refine (asks_componentNode base env file _ inline n).bind fun _ => ?_
    exact (asks_componentNodes base env file path (index + 1) inline ns).then_nil
      fun _ => asks_pure _

end

theorem asks_argumentsFor (entry : Entry) (path : String) (a : Arguments) (props : Props) :
    Asks base (argumentsFor entry path a props) [] := by
  induction props generalizing a with
  | nil => exact asks_pure _
  | cons p props ih =>
    obtain ⟨name, v⟩ := p
    rw [argumentsFor]
    split_ifs
    · exact ih _
    · exact ih _
    · refine (asks_attempt _).bind_nil fun _ => (asks_warn _).bind_nil fun _ => ?_
      exact (asks_attempt _).bind_nil fun _ => ih _

/-- A text among widgets asks for the module of the widgets, which was asked for before. -/
theorem asks_placeContent (hbase : (materialModule, []) ∈ base) (file path : String)
    (entry : Entry) (a : Arguments)
    {items : Writer (List String)} (hitems : Asks base items (treesImports env .widget cs)) :
    Asks base (placeContent ⟨env, .widget, file⟩ entry path a cs items)
      (treesImports env .widget cs) := by
  have hmaterial : Asks base (need materialModule []) [] := (asks_need _ _).congr fun x => by
    simp only [List.mem_append, List.mem_singleton, List.not_mem_nil, or_false]
    exact or_iff_left_of_imp fun hx => hx ▸ hbase
  unfold placeContent
  dsimp only
  cases hcontent : contentOf entry a.text cs with
  | run nodes =>
    rw [treesImports, Node.gatherAll_of_run (any_isElement_of_run hcontent)]
    cases entry.textMode with
    | positional => exact asks_pure _
    | wrap => exact asks_pure _
    | none =>
      refine hmaterial.bind_nil fun _ => ?_
      split_ifs
      · exact (asks_throw _).bind_nil fun _ => (asks_attempt _).bind_nil fun _ => asks_pure _
      · exact (asks_attempt _).bind_nil fun _ => asks_pure _
  | widgets =>
    dsimp only
    split_ifs
    · exact (asks_throw _).bind_nil fun _ =>
        hitems.then_nil fun _ => (asks_attempt _).bind_nil fun _ => asks_pure _
    · exact hitems.then_nil fun _ => (asks_attempt _).bind_nil fun _ => asks_pure _

theorem asks_widgetElement (hbase : (materialModule, []) ∈ base) (file path : String) (e : Element)
    {items : Writer (List String)}
    (hitems : Asks base items (treesImports env .widget cs)) :
    Asks base (widgetElement ⟨env, .widget, file⟩ path e cs items)
      (elementImports env .widget e ++
        if hidesChildren .widget e then [] else treesImports env .widget cs) := by
  have hhides : hidesChildren .widget e = (e.widget == "Router") := rfl
  rw [hhides]
  unfold widgetElement elementImports
  by_cases hrouter : (e.widget == "Router") = true
  · rw [if_pos hrouter, if_pos hrouter, if_pos hrouter, List.append_nil]
    refine (asks_routerFragment .widget file e).then_nil fun f => ?_
    dsimp only
    split_ifs
    · exact (asks_warn _).bind_nil fun _ => asks_pure _
    · exact asks_pure _
  · rw [if_neg hrouter, if_neg hrouter, if_neg hrouter]
    cases Validation.entryOf? env.table e with
    | none =>
      refine Asks.bind_nil ((asks_warn _).bind_nil fun _ => asks_pure _) fun name => ?_
      exact hitems.then_nil fun _ => asks_pure _
    | some entry =>
      dsimp only
      rw [entryImports, List.map_eq_flatMap]
      refine (asks_attempt _).bind_nil fun _ => ?_
      refine (asks_forIn (fun module => asks_need module []) _).bind fun _ => ?_
      refine (asks_argumentsFor entry path _ _).bind_nil fun a => ?_
      exact (asks_placeContent hbase file path entry a hitems).then_nil fun _ => asks_pure _

mutual

/-- The widget writer asks for what the elements of a tree ask for. -/
theorem asks_widgetNode (hbase : (materialModule, []) ∈ base) (env : Environment)
    (file path : String) : (n : Node) →
    Asks base (widgetNode ⟨env, .widget, file⟩ path n) (treeImports env .widget n)
  | .text v => asks_pure _
  | .slot source => asks_pure _
  | .element e cs => by
    have helement := asks_widgetElement hbase file path e
      (asks_widgetNodes hbase env file path 0 cs)
    have hmotion : motionImports .widget e = [] := rfl
    rw [widgetNode, treeImports_element, hmotion, List.append_nil]
    refine helement.then_nil fun inner => ?_
    cases e.motion with
    | none => exact asks_pure _
    | some motion =>
      exact (asks_attempt _).bind_nil fun _ => (asks_warn _).bind_nil fun _ => asks_pure _

theorem asks_widgetNodes (hbase : (materialModule, []) ∈ base) (env : Environment)
    (file path : String) (index : Nat) : (ns : List Node) →
    Asks base (widgetNodes ⟨env, .widget, file⟩ path index ns) (treesImports env .widget ns)
  | [] => asks_pure _
  | n :: ns => by
    rw [widgetNodes, treesImports_cons]
    refine (asks_widgetNode hbase env file _ n).bind fun _ => ?_
    exact (asks_widgetNodes hbase env file path (index + 1) ns).then_nil fun _ => asks_pure _

end

end Writers

/-! ## Import lines -/

/-- A statement that imports names of a module. -/
structure ImportStatement where
  module : String
  /-- The name for the default of the module. -/
  asDefault : Option String := none
  names : List String := []

/-- A statement as source. -/
def ImportStatement.text (st : ImportStatement) : Framework → String
  | .component =>
    let clause := st.asDefault.toList ++
      (if st.names.isEmpty then [] else ["\x7b " ++ join ", " st.names ++ " \x7d"])
    if clause.isEmpty then "import " ++ ComponentGrammar.string st.module ++ ";"
    else "import " ++ join ", " clause ++ " from " ++ ComponentGrammar.string st.module ++ ";"
  | .widget => "import '" ++ st.module ++ "';"

/-- The statements for a table of imports. -/
def importStatements (i : Imports) : Framework → List ImportStatement
  | .component => (sortTexts (addTexts i.named.keys i.defaults.keys)).map fun module =>
      ⟨module, i.defaults.get? module, sortTexts (i.named.namesOf module)⟩
  | .widget => (sortTexts i.named.keys).map fun module => ⟨module, none, []⟩

/-- The lines of the import block: a statement for each module, and the statements that were kept as
they are. -/
def importLines (i : Imports) : Framework → List String
  | .component => componentImports i
  | .widget => widgetImports i

theorem importLines_eq (i : Imports) (framework : Framework) : importLines i framework =
    (importStatements i framework).map (·.text framework) ++ sortTexts i.raw := by
  cases framework with
  | component =>
    rw [importLines, importStatements, List.map_map]
    rfl
  | widget =>
    rw [importLines, importStatements, List.map_map]
    rfl

variable {i j : Imports} {framework : Framework}

theorem importStatements_alike (h : i.Alike j) (hi : i.named.IsTidy) (hj : j.named.IsTidy)
    (framework : Framework) : importStatements i framework = importStatements j framework := by
  cases framework with
  | component =>
    have hmodules : sortTexts (addTexts i.named.keys i.defaults.keys) =
        sortTexts (addTexts j.named.keys j.defaults.keys) :=
      sortTexts_congr (nodup_addTexts hi.modules _) (nodup_addTexts hj.modules _) fun module => by
        rw [mem_addTexts, mem_addTexts, h.modules, h.defaults]
    have hnames (module : String) :
        sortTexts (i.named.namesOf module) = sortTexts (j.named.namesOf module) :=
      sortTexts_congr (hi.names module) (hj.names module) (h.names module)
    rw [importStatements, importStatements, hmodules]
    simp only [hnames, h.defaults]
  | widget =>
    rw [importStatements, importStatements, sortTexts_congr hi.modules hj.modules h.modules]

/-- Imports that hold the same are written the same. -/
theorem importLines_alike (h : i.Alike j) (hi : i.named.IsTidy) (hj : j.named.IsTidy)
    (framework : Framework) : importLines i framework = importLines j framework := by
  rw [importLines_eq, importLines_eq, importStatements_alike h hi hj, h.raw]

/-- There is one statement for each module, in ascending order of the modules. -/
theorem ascending_modules (hi : i.named.IsTidy) (framework : Framework) :
    ((importStatements i framework).map (·.module)).Pairwise (· < ·) := by
  cases framework with
  | component =>
    rw [importStatements, List.map_map]
    have h := ascending_sortTexts (nodup_addTexts hi.modules i.defaults.keys)
    rwa [← List.map_id (sortTexts _)] at h
  | widget =>
    rw [importStatements, List.map_map]
    have h := ascending_sortTexts hi.modules
    rwa [← List.map_id (sortTexts _)] at h

/-- The names in a statement are in ascending order. -/
theorem ascending_names (hi : i.named.IsTidy) {st : ImportStatement}
    (hst : st ∈ importStatements i framework) : st.names.Pairwise (· < ·) := by
  cases framework with
  | component =>
    obtain ⟨module, -, rfl⟩ := List.mem_map.1 hst
    exact ascending_sortTexts (hi.names module)
  | widget =>
    obtain ⟨module, -, rfl⟩ := List.mem_map.1 hst
    exact .nil

/-! ## Documents -/

/-- The imports after those of a list of declarations. -/
def declaredImports (same : Bool) : List String → Imports → Imports
  | [], i => i
  | source :: rest, i =>
    declaredImports same rest (if same then (i.take? source).getD i else i)

theorem alike_declaredImports (h : i.Alike j) (same : Bool) (sources : List String) :
    (declaredImports same sources i).Alike (declaredImports same sources j) := by
  induction sources generalizing i j with
  | nil => exact h
  | cons source rest ih =>
    apply ih
    split_ifs
    · rcases h.take? source with ⟨hi, hj⟩ | ⟨i', j', hi, hj, halike, -⟩
      · rwa [hi, hj]
      · rwa [hi, hj]
    · exact h

theorem isTidy_declaredImports (h : i.named.IsTidy) (same : Bool) (sources : List String) :
    (declaredImports same sources i).named.IsTidy := by
  induction sources generalizing i with
  | nil => exact h
  | cons source rest ih =>
    apply ih
    split_ifs
    · rcases (Imports.Alike.refl i).take? source with ⟨hi, -⟩ | ⟨i', -, hi, -, -, htidy⟩
      · rwa [hi]
      · rw [hi]
        exact htidy h
    · exact h

theorem imports_carryDeclarations {same : Bool} {sources kept : List String} {d d' : Draft}
    (h : (carryDeclarations same sources).run.run d = (.ok kept, d')) :
    d'.imports = declaredImports same sources d.imports := by
  induction sources generalizing kept d with
  | nil =>
    cases h
    rfl
  | cons source rest ih =>
    rw [carryDeclarations] at h
    rw [declaredImports]
    split_ifs at h ⊢ with hsame himport
    · obtain ⟨now, d₁, hget, h⟩ := run_bind_ok h
      cases hget
      cases htake : d.imports.take? source with
      | none =>
        rw [htake] at h
        obtain ⟨more, d₂, hrest, h⟩ := run_bind_ok h
        cases h
        exact ih hrest
      | some imports =>
        rw [htake] at h
        obtain ⟨_, d₂, hmodify, h⟩ := run_bind_ok h
        cases hmodify
        exact ih h
    · exact ih h
    · obtain ⟨more, d₂, hrest, h⟩ := run_bind_ok h
      cases h
      exact ih hrest

theorem imports_allDeclarations {doc : Document} {same : Bool} {fragments : List State.Fragment}
    {declarations : List String} {d d' : Draft}
    (h : (allDeclarations doc same fragments).run.run d = (.ok declarations, d')) :
    d'.imports = declaredImports same doc.declarations d.imports := by
  obtain ⟨own, d₁, hcarry, h⟩ := run_bind_ok h
  obtain ⟨now, d₂, hget, h⟩ := run_bind_ok h
  cases hget
  cases h
  exact imports_carryDeclarations hcarry

theorem imports_stateFragments {s : Setting} {root : Node} {fragments : List State.Fragment}
    {d d' : Draft} (h : (stateFragments s root).run.run d = (.ok fragments, d')) :
    State.expandAll s.environment.settings s.framework.name (bindingsOf root) = .ok fragments ∧
      ∃ asks, d'.imports = d.imports.merge asks ∧
        ∀ x, x ∈ asks ↔ x ∈ fragments.flatMap (·.imports) := by
  unfold stateFragments at h
  obtain ⟨expanded, d₁, hattempt, hloop⟩ := run_bind_ok h
  obtain ⟨hexpand, rfl⟩ := run_attempt_ok hattempt
  obtain ⟨_, d₂, hneed, hlast⟩ := run_bind_ok hloop
  cases hlast
  have hasks : Asks [] _ (fragments.flatMap (·.imports)) :=
    asks_forIn (fun f : State.Fragment => asks_needAll f.imports) fragments
  exact ⟨hexpand, hasks _ _ _ hneed⟩

/-- The imports that the root of a document asks for.  A root that holds its markup as one
expression is not written as a tree. -/
def rootImports (env : Environment) (framework : Framework) (root : Node) : ModuleNames :=
  if framework = .component ∧ (markupOf? root).isSome then [] else treeImports env framework root

/-- What a framework always imports. -/
def baseImports : Framework → ModuleNames
  | .component => []
  | .widget => [(materialModule, [])]

/-- A source that begins with import lines as its first part.  Without imports this part may be
missing. -/
def BeginsWith (imports : List String) (source : String) : Prop :=
  ∃ parts, source = join "\n\n" (join "\n" imports :: parts) ++ "\n" ∨
    imports = [] ∧ source = join "\n\n" parts ++ "\n"

theorem beginsWith_component (imports declarations : List String) (component : String) :
    BeginsWith imports (join "\n\n" ((if imports.isEmpty then [] else [join "\n" imports]) ++
      declarations ++ [component]) ++ "\n") := by
  refine ⟨declarations ++ [component], ?_⟩
  rw [List.append_assoc]
  split_ifs with hempty
  · exact .inr ⟨List.isEmpty_iff.1 hempty, rfl⟩
  · exact .inl rfl

/-- The end of both writers: the declarations, and then the source from what was collected. -/
theorem run_source {doc : Document} {same : Bool} {fragments : List State.Fragment}
    {g : List String → Draft → String} {d d' : Draft} {source : String}
    (h : (do
      let declarations ← allDeclarations doc same fragments
      let now ← (get : Writer Draft)
      return g declarations now).run.run d = (.ok source, d')) :
    d'.imports = declaredImports same doc.declarations d.imports ∧
      ∃ declarations, source = g declarations d' := by
  obtain ⟨declarations, d₁, hdeclared, hrest⟩ := run_bind_ok h
  obtain ⟨now, d₂, hget, hsource⟩ := run_bind_ok hrest
  cases hget
  cases hsource
  exact ⟨imports_allDeclarations hdeclared, declarations, rfl⟩

/-- The imports that were collected when a document was written, with the source at whose head they
stand. -/
structure Collects (env : Environment) (framework : Framework) (d : Document) (source : String)
    (i : Imports) : Prop where
  run : ∃ e cs draft, d.root = some (.element e cs) ∧
    (documentWriter env framework d e cs).run.run {} = (.ok source, draft) ∧ draft.imports = i
  begins : BeginsWith (importLines i framework) source

/-- The imports of a written document: those of its framework, its state and its tree, and then
those that it declares. -/
theorem imports_documentWriter {env : Environment} {framework : Framework} {doc : Document}
    {e : Element} {cs : List Node} {source : String} {draft : Draft}
    (h : (documentWriter env framework doc e cs).run.run {} = (.ok source, draft)) :
    ∃ fragments asks, State.expandAll env.settings framework.name
        (bindingsOf (.element e cs)) = .ok fragments ∧
      draft.imports = declaredImports (doc.framework == framework.name) doc.declarations
        (({} : Imports).merge asks) ∧
      (∀ x, x ∈ asks ↔ x ∈ baseImports framework ++ fragments.flatMap (·.imports) ++
        rootImports env framework (.element e cs)) ∧
      BeginsWith (importLines draft.imports framework) source := by
  cases framework with
  | component =>
    unfold documentWriter componentDocument at h
    obtain ⟨fragments, d₁, hstate, hmarkup⟩ := run_bind_ok h
    obtain ⟨hexpand, asks, himports, hasks⟩ := imports_stateFragments hstate
    obtain ⟨more, himports', hmore, hbegins⟩ : ∃ more, draft.imports =
        declaredImports (doc.framework == Framework.component.name) doc.declarations
          (d₁.imports.merge more) ∧
        (∀ x, x ∈ more ↔ x ∈ rootImports env .component (.element e cs)) ∧
        BeginsWith (importLines draft.imports .component) source := by
      have hroot : markupOf? (.element e cs) = rootMarkup? e cs := rfl
      rw [rootImports, hroot]
      cases hwhole : rootMarkup? e cs with
      | some whole =>
        rw [hwhole] at hmarkup
        obtain ⟨markup, d₂, hnode, hrest⟩ := run_bind_ok hmarkup
        cases hnode
        obtain ⟨hdeclared, declarations, rfl⟩ := run_source hrest
        exact ⟨[], hdeclared, fun _ => .rfl, beginsWith_component _ _ _⟩
      | none =>
        rw [hwhole] at hmarkup
        obtain ⟨markup, d₂, hnode, hrest⟩ := run_bind_ok hmarkup
        obtain ⟨more, himports', hmore⟩ :=
          asks_componentNode [] env doc.file "root" false _ _ _ _ hnode
        obtain ⟨hdeclared, declarations, rfl⟩ := run_source hrest
        rw [himports'] at hdeclared
        exact ⟨more, hdeclared, hmore, beginsWith_component _ _ _⟩
    refine ⟨fragments, asks ++ more, hexpand, ?_, fun x => ?_, hbegins⟩
    · rw [himports', himports, Imports.merge_append]
    · rw [List.mem_append, List.mem_append, hasks, hmore]
      rfl
  | widget =>
    unfold documentWriter widgetDocument at h
    obtain ⟨_, d₀, hneed, hstart⟩ := run_bind_ok h
    cases hneed
    obtain ⟨fragments, d₁, hstate, hmarkup⟩ := run_bind_ok hstart
    obtain ⟨hexpand, asks, himports, hasks⟩ := imports_stateFragments hstate
    split_ifs at hmarkup
    · obtain ⟨_, _, hthrow, -⟩ := run_bind_ok hmarkup
      cases hthrow
    obtain ⟨markup, d₂, hnode, hrest⟩ := run_bind_ok hmarkup
    have htree : Asks (baseImports .widget) _ (treeImports env .widget (.element e cs)) :=
      asks_widgetNode List.mem_cons_self env doc.file "root" _
    obtain ⟨more, himports', hmore⟩ := htree _ _ _ hnode
    obtain ⟨hdeclared, declarations, rfl⟩ := run_source hrest
    refine ⟨fragments, baseImports .widget ++ asks ++ more, hexpand, ?_, fun x => ?_, _, .inl rfl⟩
    · rw [hdeclared, himports', himports, Imports.merge_append, Imports.merge_append]
      rfl
    · have hmore := hmore x
      have hroot : rootImports env .widget (.element e cs) =
          treeImports env .widget (.element e cs) :=
        rfl
      rw [List.mem_append, List.mem_append] at hmore
      rw [hroot, List.mem_append, List.mem_append, List.mem_append, List.mem_append, hasks,
        or_right_comm, hmore, or_right_comm]

theorem mem_expandAll {settings : Settings} {framework : String} {bs : List State.Binding}
    {fragments : List State.Fragment} (h : State.expandAll settings framework bs = .ok fragments)
    {f : State.Fragment} :
    f ∈ fragments ↔ ∃ b, b ∈ bs ∧ State.expandFor settings framework b = .ok f := by
  unfold State.expandAll at h
  induction bs generalizing fragments with
  | nil =>
    cases h
    simp
  | cons b bs ih =>
    rw [List.mapM_cons] at h
    cases hfirst : State.expandFor settings framework b with
    | error e =>
      rw [hfirst] at h
      cases h
    | ok g =>
      cases hrest : bs.mapM (State.expandFor settings framework) with
      | error e =>
        rw [hfirst, hrest] at h
        cases h
      | ok gs =>
        rw [hfirst, hrest] at h
        cases h
        rw [List.mem_cons, ih hrest, List.exists_mem_cons_iff, hfirst, Except.ok.injEq, eq_comm]

/-- The state of trees that differ in the order of children asks for the same imports. -/
theorem mem_stateImports {settings : Settings} {framework : String} {root root' : Node}
    (h : root.Reordered root') {fragments fragments' : List State.Fragment}
    (hf : State.expandAll settings framework (bindingsOf root) = .ok fragments)
    (hf' : State.expandAll settings framework (bindingsOf root') = .ok fragments')
    (x : String × List String) :
    x ∈ fragments.flatMap (·.imports) ↔ x ∈ fragments'.flatMap (·.imports) := by
  have hfragment (f : State.Fragment) : f ∈ fragments ↔ f ∈ fragments' := by
    rw [mem_expandAll hf, mem_expandAll hf', bindingsOf_eq_gather, bindingsOf_eq_gather]
    exact exists_congr fun b => and_congr_left' h.perm_gather.mem_iff
  simp only [List.mem_flatMap, hfragment]

theorem mem_rootImports {env : Environment} {framework : Framework} {root root' : Node}
    (h : root.Reordered root') (x : String × List String) :
    x ∈ rootImports env framework root ↔ x ∈ rootImports env framework root' := by
  rw [rootImports, rootImports, markupOf?_of_reordered h]
  split_ifs
  · exact .rfl
  · exact h.perm_gather.mem_iff

/-- Only a document with an element as root is written. -/
theorem run_of_success {env : Environment} {framework : Framework} {d : Document} {root : Node}
    (hroot : d.root = some root) {source : String} {warnings : List Issue}
    (h : writeDocument env framework d = .ok (.success source warnings)) :
    ∃ e cs draft, root = .element e cs ∧
      (documentWriter env framework d e cs).run.run {} = (.ok source, draft) := by
  cases root with
  | element e cs =>
    obtain ⟨written, draft, hrun, heq⟩ := run_of_isOk hroot h rfl
    cases heq
    exact ⟨e, cs, draft, rfl, hrun⟩
  | text v =>
    rw [writeDocument, hroot] at h
    cases h
  | slot whole =>
    rw [writeDocument, hroot] at h
    cases h

/-- The import block does not depend on the order in which a tree is walked. Two documents with the
same metadata, of which the framework and the declarations matter here, and with roots that differ
only in the order of the children of elements, at any depth, are written with the same import lines
at the head of the source.  Of these the statements for the table have strictly ascending modules,
and strictly ascending names. -/
theorem importLines_writeDocument (env : Environment) (framework : Framework) {d d' : Document}
    {root root' : Node} (hroot : d.root = some root) (hroot' : d'.root = some root')
    (hreordered : root.Reordered root') (hframework : d'.framework = d.framework)
    (hdeclarations : d'.declarations = d.declarations) {source source' : String}
    {warnings warnings' : List Issue}
    (ho : writeDocument env framework d = .ok (.success source warnings))
    (ho' : writeDocument env framework d' = .ok (.success source' warnings')) :
    ∃ i i', Collects env framework d source i ∧ Collects env framework d' source' i' ∧
      importLines i framework = importLines i' framework ∧
      importLines i framework =
        (importStatements i framework).map (·.text framework) ++ sortTexts i.raw ∧
      ((importStatements i framework).map (·.module)).Pairwise (· < ·) ∧
      ∀ st ∈ importStatements i framework, st.names.Pairwise (· < ·) := by
  obtain ⟨e, cs, draft, hd, hrun⟩ := run_of_success hroot ho
  obtain ⟨e', cs', draft', hd', hrun'⟩ := run_of_success hroot' ho'
  subst hd hd'
  obtain ⟨fragments, asks, hexpand, himports, hasks, hbegins⟩ := imports_documentWriter hrun
  obtain ⟨fragments', asks', hexpand', himports', hasks', hbegins'⟩ := imports_documentWriter hrun'
  have hsame (x : String × List String) : x ∈ asks ↔ x ∈ asks' := by
    rw [hasks, hasks', List.mem_append, List.mem_append, List.mem_append, List.mem_append,
      mem_stateImports hreordered hexpand hexpand', mem_rootImports hreordered]
  rw [hframework, hdeclarations] at himports'
  have halike : draft.imports.Alike draft'.imports := by
    rw [himports, himports']
    exact alike_declaredImports ((Imports.Alike.refl {}).merge hsame) _ _
  have htidy : draft.imports.named.IsTidy := by
    rw [himports]
    exact isTidy_declaredImports (ModuleNames.isTidy_nil.merge asks) _ _
  have htidy' : draft'.imports.named.IsTidy := by
    rw [himports']
    exact isTidy_declaredImports (ModuleNames.isTidy_nil.merge asks') _ _
  exact ⟨draft.imports, draft'.imports, ⟨⟨e, cs, draft, hroot, hrun, rfl⟩, hbegins⟩,
    ⟨⟨e', cs', draft', hroot', hrun', rfl⟩, hbegins'⟩, importLines_alike halike htidy htidy' _,
    importLines_eq _ _, ascending_modules htidy _, fun st hst => ascending_names htidy hst⟩

/-- A screen with state, a text and a view around two widgets. -/
def screen : Node :=
  .element { widget := "View", bindings := [{ name := "count", kind := .local }] }
    [.element { widget := "Text" } [.text "Total"],
      .element { widget := "View" } [.element { widget := "Image" } [],
        .element { widget := "Switch" } []]]

/-- The same screen with the children of both views in reverse. -/
def mirroredScreen : Node :=
  .element { widget := "View", bindings := [{ name := "count", kind := .local }] }
    [.element { widget := "View" } [.element { widget := "Switch" } [],
        .element { widget := "Image" } []],
      .element { widget := "Text" } [.text "Total"]]

/-- A document with a root and nothing around it. -/
def bareDocument (root : Node) : Document where
  framework := Framework.component.name
  root := some root

theorem importLines_writeDocument_screen : ∃ source source' warnings warnings',
    writeDocument {} .component (bareDocument screen) = .ok (.success source warnings) ∧
    writeDocument {} .component (bareDocument mirroredScreen) =
      .ok (.success source' warnings') ∧
    ∃ i i', Collects {} .component (bareDocument screen) source i ∧
      Collects {} .component (bareDocument mirroredScreen) source' i' ∧
      importLines i .component = importLines i' .component := by
  have hreordered : screen.Reordered mirroredScreen :=
    .tail (.single (.deeper _ [.element { widget := "Text" } [.text "Total"]] []
      (.top _ (List.Perm.swap ..)))) (.top _ (List.Perm.swap ..))
  have hroot : (bareDocument screen).root = some screen := rfl
  have hroot' : (bareDocument mirroredScreen).root = some mirroredScreen := rfl
  obtain ⟨source, warnings, ho⟩ : ∃ source warnings, writeDocument {} .component
      (bareDocument screen) = .ok (.success source warnings) := ⟨_, _, rfl⟩
  obtain ⟨source', warnings', ho'⟩ : ∃ source warnings, writeDocument {} .component
      (bareDocument mirroredScreen) = .ok (.success source warnings) := ⟨_, _, rfl⟩
  obtain ⟨i, i', hi, hi', hlines, -⟩ :=
    importLines_writeDocument {} .component hroot hroot' hreordered rfl rfl ho ho'
  exact ⟨source, source', warnings, warnings', ho, ho', i, i', hi, hi', hlines⟩

end Writing

end WidgetBridge
