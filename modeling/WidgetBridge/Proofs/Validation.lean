import Mathlib.Data.List.Basic
import WidgetBridge.Validation

/-!
# What validation decides

`IsSound` says of one node what validation asks of it, without regard to the order of the checks and
to what is only warned about: the payloads of texts, slots and expressions are texts, literals have
the kind of their tag, a placeholder has the name that it stands for, and the children fit the entry
of the element. `Offends t d path` says that a document breaks one of these rules at a path. The
document may be `Document Value`, whose payloads are any data, as well as one of texts.

The checker descends by itself and makes its own paths, and `checkTree_eq_flatMap` says that it
visits what `Node.walk` lists. Each check reports a structural finding exactly where its rule is
broken (`reportsAt_checkPayload_iff`, `reportsAt_checkName_iff`, `reportsAt_checkProp_iff`,
`reportsAt_checkArity_iff`), so the paths of the errors are exactly the offending ones, and a
document passes if and only if it has a root and all its nodes are sound (`validate_isOk_iff`).
-/

namespace WidgetBridge.Validation

open WidgetBridge.Mapping

variable {σ : Type}

/-! ## Rules -/

/-- The number of children, where all texts and slots together are one child. -/
def childCount (cs : List (Node σ)) : Nat :=
  cs.countP Node.isElement + if ∃ c ∈ cs, c.isElement = false then 1 else 0

/-- Whether children fit an entry. -/
def FitsArity (entry : Entry) (cs : List (Node σ)) : Prop :=
  match entry.arity with
  | .leaf => (∀ c ∈ cs, c.isElement = false) ∧
      (entry.textMode = .none → ∀ c ∈ cs, c.isElement = true)
  | .single => childCount cs ≤ 1
  | .multi => True

/-- Whether a placeholder has the name that it stands for. -/
def IsNamed (e : Element σ) : Prop :=
  e.isPlaceholder = true → ∃ name, e.standsFor = some name ∧ name ≠ ""

section Payloads

variable [Payload σ]

/-- Whether a payload is a text. -/
def IsText (x : σ) : Prop := ∃ s, Payload.toValue x = .str s

/-- The rule for a prop: a literal has the kind of its tag, and the source of an expression is a
text. -/
def SoundProp : PropValue σ → Prop
  | .lit kind v => (PropValue.lit kind v : PropValue σ).matchesKind = true
  | .expr source => IsText source

/-- The rules for an element with its children. -/
structure SoundElement (t : Table) (e : Element σ) (cs : List (Node σ)) : Prop where
  props : ∀ p ∈ e.props, SoundProp p.2
  name : IsNamed e
  children : ∀ entry, entryOf? t e = some entry → FitsArity entry cs

/-- The rules for a node on its own. -/
def IsSound (t : Table) : Node σ → Prop
  | .element e cs => SoundElement t e cs
  | .text v => IsText v
  | .slot source => IsText source

/-- A document breaks a rule at a path: the path of a node, or the path of a prop of it. -/
inductive Offends (t : Table) (d : Document σ) : String → Prop
  /-- There is no root, whose path it would be. -/
  | root (h : d.root = none) : Offends t d "root"
  | text {root : Node σ} {path : String} {v : σ} (hroot : d.root = some root)
      (hmem : (path, .text v) ∈ root.walk "root") (h : ¬IsText v) : Offends t d path
  | slot {root : Node σ} {path : String} {source : σ} (hroot : d.root = some root)
      (hmem : (path, .slot source) ∈ root.walk "root") (h : ¬IsText source) : Offends t d path
  | name {root : Node σ} {path : String} {e : Element σ} {cs : List (Node σ)}
      (hroot : d.root = some root) (hmem : (path, .element e cs) ∈ root.walk "root")
      (h : ¬IsNamed e) : Offends t d path
  | children {root : Node σ} {path : String} {e : Element σ} {cs : List (Node σ)} {entry : Entry}
      (hroot : d.root = some root) (hmem : (path, .element e cs) ∈ root.walk "root")
      (hentry : entryOf? t e = some entry) (h : ¬FitsArity entry cs) : Offends t d path
  | prop {root : Node σ} {path name : String} {e : Element σ} {cs : List (Node σ)}
      {v : PropValue σ} (hroot : d.root = some root)
      (hmem : (path, .element e cs) ∈ root.walk "root") (hprop : (name, v) ∈ e.props)
      (h : ¬SoundProp v) : Offends t d (path ++ ".props." ++ name)

end Payloads

/-! ## Checks -/

/-- A list of findings holds a structural one at a path. -/
def ReportsAt (fs : List Finding) (path : String) : Prop :=
  ∃ f ∈ fs, f.concern = .structural ∧ f.path = path

theorem reportsAt_append {fs gs : List Finding} {path : String} :
    ReportsAt (fs ++ gs) path ↔ ReportsAt fs path ∨ ReportsAt gs path := by
  simp only [ReportsAt, List.mem_append, or_and_right, exists_or]

theorem reportsAt_flatMap {α : Type} {as : List α} {g : α → List Finding} {path : String} :
    ReportsAt (as.flatMap g) path ↔ ∃ a ∈ as, ReportsAt (g a) path := by
  simp only [ReportsAt, List.mem_flatMap]
  constructor
  · rintro ⟨f, ⟨a, ha, hf⟩, h⟩
    exact ⟨a, ha, f, hf, h⟩
  · rintro ⟨a, ha, f, hf, h⟩
    exact ⟨f, ⟨a, ha, hf⟩, h⟩

theorem not_reportsAt_nil (path : String) : ¬ReportsAt [] path := by
  rintro ⟨f, hf, -⟩
  cases hf

theorem reportsAt_singleton {f : Finding} (hf : f.concern = .structural) {path : String} :
    ReportsAt [f] path ↔ path = f.path := by
  constructor
  · rintro ⟨g, hg, -, rfl⟩
    rw [List.mem_singleton.1 hg]
  · rintro rfl
    exact ⟨f, List.mem_cons_self, hf, rfl⟩

/-- Warnings are no structural findings. -/
theorem not_reportsAt_warning {f : Finding} (hf : f.concern ≠ .structural) (path : String) :
    ¬ReportsAt [f] path := by
  rintro ⟨g, hg, hstructural, -⟩
  rw [List.mem_singleton.1 hg] at hstructural
  exact hf hstructural

theorem reportsAt_ite {p : Prop} [Decidable p] {f : Finding} (hf : f.concern = .structural)
    {path : String} : ReportsAt (if p then [f] else []) path ↔ p ∧ path = f.path := by
  split_ifs with h
  · simp [reportsAt_singleton hf, h]
  · simp [not_reportsAt_nil, h]

theorem reportsAt_checkName_iff {t : Table} {e : Element σ} {path place : String} :
    ReportsAt (checkName t e path) place ↔ ¬IsNamed e ∧ place = path := by
  unfold checkName IsNamed
  cases hp : e.isPlaceholder with
  | true =>
    cases hn : e.standsFor with
    | none => simp [reportsAt_singleton]
    | some name =>
      by_cases hne : name = ""
      · simp [hne, reportsAt_singleton]
      · simp [hne, not_reportsAt_warning]
  | false =>
    cases hentry : (entryOf? t e).isSome with
    | true => simp [not_reportsAt_nil]
    | false => simp [not_reportsAt_warning]

theorem reportsAt_checkArity_iff {entry : Entry} {e : Element σ} {cs : List (Node σ)}
    {path place : String} :
    ReportsAt (checkArity entry e cs path) place ↔ ¬FitsArity entry cs ∧ place = path := by
  have hcount : (cs.countP Node.isElement > 0) ↔ ¬∀ c ∈ cs, c.isElement = false := by
    rw [gt_iff_lt, List.countP_pos_iff]
    simp
  have hany : (cs.any fun c => !c.isElement) = true ↔ ∃ c ∈ cs, c.isElement = false := by
    simp
  unfold checkArity FitsArity
  cases entry.arity with
  | leaf =>
    dsimp only
    rw [reportsAt_ite rfl]
    refine and_congr_left' ?_
    rw [Bool.or_eq_true, decide_eq_true_eq, hcount, Bool.and_eq_true, hany, beq_iff_eq, not_and_or]
    refine or_congr_right ?_
    push Not
    simp [and_comm]
  | single =>
    dsimp only
    rw [reportsAt_ite rfl, childCount]
    refine and_congr_left' ?_
    simp only [hany]
    omega
  | multi => simp [not_reportsAt_nil]

variable [Payload σ]

theorem isText_iff {x : σ} : IsText x ↔ Payload.isText x = true := by
  unfold IsText Payload.isText
  cases Payload.toValue x <;> simp [Value.str?]

theorem reportsAt_checkPayload_iff {path place message : String} {x : σ} :
    ReportsAt (checkPayload path message x) place ↔ ¬IsText x ∧ place = path := by
  rw [isText_iff]
  unfold checkPayload
  cases Payload.isText x with
  | true => simp [not_reportsAt_nil]
  | false => simp [reportsAt_singleton]

theorem reportsAt_checkProp_iff {entry : Option Entry} {path place : String}
    {p : String × PropValue σ} : ReportsAt (checkProp entry path p) place ↔
      ¬SoundProp p.2 ∧ place = path ++ ".props." ++ p.1 := by
  obtain ⟨name, v⟩ := p
  unfold checkProp
  dsimp only
  rw [reportsAt_append]
  refine (or_iff_left ?declared).trans ?own
  case declared =>
    -- Undeclared props are warned about, whatever their value is.
    cases entry with
    | none => exact not_reportsAt_nil place
    | some entry =>
      dsimp only
      split_ifs
      · exact not_reportsAt_nil place
      · exact not_reportsAt_warning (by simp) place
  case own =>
    cases v with
    | lit kind v =>
      cases hkind : (PropValue.lit kind v : PropValue σ).matchesKind with
      | true => simp [SoundProp, hkind, not_reportsAt_nil]
      | false => simp [SoundProp, hkind, reportsAt_singleton]
    | expr source => exact reportsAt_checkPayload_iff

theorem reportsAt_checkElement_iff {t : Table} {e : Element σ} {cs : List (Node σ)}
    {path place : String} : ReportsAt (checkElement t e cs path) place ↔
      ¬IsNamed e ∧ place = path ∨
        (∃ p ∈ e.props, ¬SoundProp p.2 ∧ place = path ++ ".props." ++ p.1) ∨
        ∃ entry, entryOf? t e = some entry ∧ ¬FitsArity entry cs ∧ place = path := by
  unfold checkElement
  dsimp only
  rw [reportsAt_append, reportsAt_append, reportsAt_flatMap, reportsAt_checkName_iff, or_assoc]
  simp only [reportsAt_checkProp_iff]
  refine or_congr_right (or_congr_right ?_)
  cases entryOf? t e with
  | none => simp [not_reportsAt_nil]
  | some entry => simp [reportsAt_checkArity_iff]

/-! ## What the checker visits -/

/-- Findings about one node on its own. -/
def checkNode (t : Table) (path : String) : Node σ → List Finding
  | .element e cs => checkElement t e cs path
  | .text v => checkTree t path (.text v)
  | .slot source => checkTree t path (.slot source)

mutual

/-- The checker finds what there is to find about the nodes of the walk, one after the other. -/
theorem checkTree_eq_flatMap (t : Table) (path : String) : (n : Node σ) →
    checkTree t path n = (n.walk path).flatMap fun place => checkNode t place.1 place.2
  | .text v => by simp [Node.walk, checkNode]
  | .slot source => by simp [Node.walk, checkNode]
  | .element e cs => by
    rw [checkTree, Node.walk, List.flatMap_cons, checkNode, checkTrees_eq_flatMap t path 0 cs]

theorem checkTrees_eq_flatMap (t : Table) (path : String) (index : Nat) : (ns : List (Node σ)) →
    checkTrees t path index ns =
      (Node.walkAll path index ns).flatMap fun place => checkNode t place.1 place.2
  | [] => by simp [checkTrees, Node.walkAll]
  | n :: ns => by
    rw [checkTrees, Node.walkAll, List.flatMap_append, checkTree_eq_flatMap t _ n,
      checkTrees_eq_flatMap t path (index + 1) ns]

end

/-- What is found about a document is what is found about the nodes of its tree. -/
theorem check_eq_flatMap (t : Table) {d : Document σ} {root : Node σ} (hroot : d.root = some root) :
    check t d = (root.walk "root").flatMap fun place => checkNode t place.1 place.2 := by
  rw [check, hroot]
  exact checkTree_eq_flatMap t "root" root

/-! ## Nodes -/

/-- The findings about a node break one of its rules. -/
theorem isSound_iff {t : Table} {path : String} {n : Node σ} :
    IsSound t n ↔ ∀ place, ¬ReportsAt (checkNode t path n) place := by
  cases n with
  | text v => simp [IsSound, checkNode, checkTree, reportsAt_checkPayload_iff]
  | slot source => simp [IsSound, checkNode, checkTree, reportsAt_checkPayload_iff]
  | element e cs =>
    simp only [checkNode, reportsAt_checkElement_iff, IsSound]
    constructor
    · rintro h place (⟨hname, -⟩ | ⟨p, hp, hprop, -⟩ | ⟨entry, hentry, hfit, -⟩)
      · exact hname h.name
      · exact hprop (h.props p hp)
      · exact hfit (h.children entry hentry)
    · intro h
      refine ⟨fun p hp => ?_, ?_, fun entry hentry => ?_⟩
      · by_contra hprop
        exact h _ (.inr (.inl ⟨p, hp, hprop, rfl⟩))
      · by_contra hname
        exact h _ (.inl ⟨hname, rfl⟩)
      · by_contra hfit
        exact h _ (.inr (.inr ⟨entry, hentry, hfit, rfl⟩))

/-- The findings about a node of the tree are at offending paths. -/
theorem offends_of_reportsAt {t : Table} {d : Document σ} {root n : Node σ} {path place : String}
    (hroot : d.root = some root) (hmem : (path, n) ∈ root.walk "root")
    (h : ReportsAt (checkNode t path n) place) : Offends t d place := by
  cases n with
  | text v =>
    rw [checkNode, checkTree, reportsAt_checkPayload_iff] at h
    obtain ⟨htext, rfl⟩ := h
    exact .text hroot hmem htext
  | slot source =>
    rw [checkNode, checkTree, reportsAt_checkPayload_iff] at h
    obtain ⟨htext, rfl⟩ := h
    exact .slot hroot hmem htext
  | element e cs =>
    rw [checkNode, reportsAt_checkElement_iff] at h
    obtain ⟨hname, rfl⟩ | ⟨p, hp, hprop, rfl⟩ | ⟨entry, hentry, hfit, rfl⟩ := h
    · exact .name hroot hmem hname
    · exact .prop hroot hmem hp hprop
    · exact .children hroot hmem hentry hfit

/-- There is a finding wherever the tree offends. -/
theorem reportsAt_of_offends {t : Table} {d : Document σ} {root : Node σ} {place : String}
    (hroot : d.root = some root) (h : Offends t d place) :
    ∃ path n, (path, n) ∈ root.walk "root" ∧ ReportsAt (checkNode t path n) place := by
  have hsame : ∀ {root' : Node σ}, d.root = some root' → root' = root := fun h' =>
    Option.some.inj (h'.symm.trans hroot)
  cases h with
  | root h => simp [hroot] at h
  | text h hmem htext =>
    rw [hsame h] at hmem
    exact ⟨_, _, hmem, by simpa [checkNode, checkTree, reportsAt_checkPayload_iff] using htext⟩
  | slot h hmem htext =>
    rw [hsame h] at hmem
    exact ⟨_, _, hmem, by simpa [checkNode, checkTree, reportsAt_checkPayload_iff] using htext⟩
  | name h hmem hname =>
    rw [hsame h] at hmem
    exact ⟨_, _, hmem, reportsAt_checkElement_iff.2 (.inl ⟨hname, rfl⟩)⟩
  | children h hmem hentry hfit =>
    rw [hsame h] at hmem
    exact ⟨_, _, hmem, reportsAt_checkElement_iff.2 (.inr (.inr ⟨_, hentry, hfit, rfl⟩))⟩
  | prop h hmem hprop hsound =>
    rw [hsame h] at hmem
    exact ⟨_, _, hmem, reportsAt_checkElement_iff.2 (.inr (.inl ⟨_, hprop, hsound, rfl⟩))⟩

/-! ## Documents -/

/-- The structural findings about a document are at the offending paths. -/
theorem reportsAt_check_iff {t : Table} {d : Document σ} {path : String} :
    ReportsAt (check t d) path ↔ Offends t d path := by
  unfold check
  cases hroot : d.root with
  | none =>
    rw [reportsAt_singleton rfl]
    constructor
    · rintro rfl
      exact .root hroot
    · intro h
      cases h with
      | root => rfl
      | text h => simp [hroot] at h
      | slot h => simp [hroot] at h
      | name h => simp [hroot] at h
      | children h => simp [hroot] at h
      | prop h => simp [hroot] at h
  | some root =>
    dsimp only
    simp only [checkTree_eq_flatMap, reportsAt_flatMap, Prod.exists]
    constructor
    · rintro ⟨place, n, hmem, h⟩
      exact offends_of_reportsAt hroot hmem h
    · exact reportsAt_of_offends hroot

/-- The errors of a validation are the structural findings, tied to the file. -/
theorem errors_validate (t : Table) (d : Document σ) : (validate t d).errors =
    ((check t d).filter fun f => f.concern == .structural).map fun f =>
      .validation f.concern f.path f.message d.file := by
  unfold validate
  rw [List.partition_eq_filter_filter]
  dsimp only
  split_ifs with hempty
  · rw [List.isEmpty_iff.1 hempty]
    rfl
  · rfl

/-- The warnings of a validation are the other findings, tied to the file. -/
theorem warnings_validate (t : Table) (d : Document σ) : (validate t d).warnings =
    ((check t d).filter fun f => !(f.concern == .structural)).map fun f =>
      .validation f.concern f.path f.message d.file := by
  unfold validate
  rw [List.partition_eq_filter_filter]
  dsimp only
  split_ifs <;> rfl

/-- Nothing structural is found about a document that passes. -/
theorem concern_ne_of_isOk {t : Table} {d : Document σ} (h : (validate t d).isOk = true)
    {f : Finding} (hf : f ∈ check t d) : f.concern ≠ .structural := by
  rw [Outcome.isOk, List.isEmpty_iff, errors_validate, List.map_eq_nil_iff,
    List.filter_eq_nil_iff] at h
  exact fun hconcern => h f hf (beq_iff_eq.2 hconcern)

/-- There is an error at a path if and only if the document offends there. -/
theorem error_mem_iff {t : Table} {d : Document σ} {path : String} :
    (∃ message, Issue.validation .structural path message d.file ∈ (validate t d).errors) ↔
      Offends t d path := by
  rw [← reportsAt_check_iff, errors_validate]
  simp only [List.mem_map, List.mem_filter, beq_iff_eq, ReportsAt]
  constructor
  · rintro ⟨message, f, ⟨hf, hconcern⟩, heq⟩
    rw [Issue.validation.injEq] at heq
    exact ⟨f, hf, hconcern, heq.2.1⟩
  · rintro ⟨f, hf, hconcern, rfl⟩
    exact ⟨f.message, f, ⟨hf, hconcern⟩, by rw [hconcern]⟩

/-- A document passes if and only if it has a root and every node of the tree is sound. Every error
is a structural one at an offending path, and there is one at each such path. -/
theorem validate_isOk_iff (t : Table) (d : Document σ) :
    ((validate t d).isOk = true ↔
      ∃ root, d.root = some root ∧ ∀ p ∈ root.walk "root", IsSound t p.2) ∧
    (∀ issue ∈ (validate t d).errors, ∃ path message,
      issue = .validation .structural path message d.file ∧ Offends t d path) ∧
    ∀ path, Offends t d path →
      ∃ message, Issue.validation .structural path message d.file ∈ (validate t d).errors := by
  have hstructural : ∀ issue ∈ (validate t d).errors, ∃ path message,
      issue = .validation .structural path message d.file := by
    intro issue hissue
    rw [errors_validate] at hissue
    obtain ⟨f, hf, rfl⟩ := List.mem_map.1 hissue
    exact ⟨f.path, f.message, by rw [beq_iff_eq.1 (List.mem_filter.1 hf).2]⟩
  have hok : (validate t d).isOk = true ↔ ∀ path, ¬Offends t d path := by
    rw [Outcome.isOk, List.isEmpty_iff, List.eq_nil_iff_forall_not_mem]
    constructor
    · intro h path hoffends
      obtain ⟨message, hmem⟩ := error_mem_iff.2 hoffends
      exact h _ hmem
    · intro h issue hissue
      obtain ⟨path, message, rfl⟩ := hstructural issue hissue
      exact h path (error_mem_iff.1 ⟨message, hissue⟩)
  refine ⟨?_, fun issue hissue => ?_, fun path hoffends => error_mem_iff.2 hoffends⟩
  · rw [hok]
    simp only [← reportsAt_check_iff, check]
    cases hroot : d.root with
    | none =>
      simp [reportsAt_singleton]
    | some root =>
      simp only [checkTree_eq_flatMap, reportsAt_flatMap, Option.some.injEq, exists_eq_left']
      constructor
      · exact fun h p hp => isSound_iff.2 fun place hplace => h place ⟨p, hp, hplace⟩
      · rintro h place ⟨p, hp, hplace⟩
        exact isSound_iff.1 (h p hp) place hplace
  · obtain ⟨path, message, rfl⟩ := hstructural issue hissue
    exact ⟨path, message, rfl, error_mem_iff.1 ⟨message, hissue⟩⟩

/-- A number in place of a text is refused where it stands. -/
example : (validate (.ofEntries [] [])
      { framework := "componentModel", root := some (.text (Value.int 5)) }).errors =
    [.validation .structural "root" "TextLiteral value must be a string" "<memory>"] := rfl

end WidgetBridge.Validation
