import Mathlib.Data.List.Basic
import WidgetBridge.Writing.Draft

/-!
# Steps of writing

`Yields w P` says that a step of writing succeeds from every draft, with a result that has the
property `P`, and that it adds no warning.  `ReturnsAs w P` says that all results of a step have the
property `P`.  `FailsAs w P` says that all failures of a step have the property `P`, and `Fails w`
that the step fails from every draft.  `Adds w R` says that a step which succeeds leaves the
warnings that are there and adds some, and relates its result to these.  The rules follow the way in
which steps are put together.
-/

namespace WidgetBridge.Writing

/-- A step of writing that succeeds with a result that has a property, without a warning. -/
def Yields {α : Type} (w : Writer α) (P : α → Prop) : Prop :=
  ∀ d : Draft, ∃ a d', w.run.run d = (.ok a, d') ∧ d'.warnings = d.warnings ∧ P a

section Rules

variable {α β : Type} {P : α → Prop} {Q : β → Prop}

theorem yields_pure {a : α} (h : P a) : Yields (pure a) P := fun d => ⟨a, d, rfl, rfl, h⟩

theorem Yields.bind {w : Writer α} (hw : Yields w P) {f : α → Writer β}
    (hf : ∀ a, P a → Yields (f a) Q) : Yields (w >>= f) Q := by
  intro d
  obtain ⟨a, d₁, hrun, hwarn, ha⟩ := hw d
  obtain ⟨b, d₂, hrun', hwarn', hb⟩ := hf a ha d₁
  refine ⟨b, d₂, ?_, hwarn'.trans hwarn, hb⟩
  simp only [ExceptT.run_bind, StateT.run_bind, hrun]
  exact hrun'

theorem Yields.imp {w : Writer α} (hw : Yields w P) {P' : α → Prop} (h : ∀ a, P a → P' a) :
    Yields w P' := fun d =>
  let ⟨a, d', hrun, hwarn, ha⟩ := hw d
  ⟨a, d', hrun, hwarn, h a ha⟩

theorem yields_attempt {x : Attempt α} {a : α} (hx : x = .ok a) (h : P a) :
    Yields (attempt x) P := by
  subst hx
  exact fun d => ⟨a, d, rfl, rfl, h⟩

theorem yields_need (module : String) (names : List String) :
    Yields (need module names) fun _ => True :=
  fun _ => ⟨(), _, rfl, rfl, trivial⟩

theorem yields_warn_nil : Yields (warn []) fun _ => True :=
  fun d => ⟨(), _, rfl, List.append_nil d.warnings, trivial⟩

theorem yields_forIn {γ : Type} {f : γ → Writer Unit} (hf : ∀ x, Yields (f x) fun _ => True)
    (xs : List γ) :
    Yields (forIn xs PUnit.unit fun x _ => do f x; pure (.yield PUnit.unit)) fun _ => True := by
  induction xs with
  | nil => exact yields_pure trivial
  | cons x xs ih =>
    simp only [List.forIn_cons, bind_assoc, pure_bind]
    exact (hf x).bind fun _ _ => ih

end Rules

/-! ## Results -/

section Runs

variable {α β : Type} {d d' : Draft}

/-- A result of two steps is one of the second from a result of the first. -/
theorem run_bind_ok {w : Writer α} {f : α → Writer β} {b : β}
    (h : (w >>= f).run.run d = (.ok b, d')) :
    ∃ a d₁, w.run.run d = (.ok a, d₁) ∧ (f a).run.run d₁ = (.ok b, d') := by
  simp only [ExceptT.run_bind, StateT.run_bind] at h
  cases hw : w.run.run d with
  | mk r d₁ =>
    rw [hw] at h
    cases r with
    | ok a => exact ⟨a, d₁, rfl, h⟩
    | error e =>
      have h : (Except.error e, d₁) = (Except.ok b, d') := h
      cases h

theorem run_attempt_ok {x : Attempt α} {a : α} (h : (attempt x).run.run d = (.ok a, d')) :
    x = .ok a ∧ d' = d := by
  have h : (x, d) = (Except.ok a, d') := h
  cases h
  exact ⟨rfl, rfl⟩

end Runs

/-- A step of writing all of whose results have a property. -/
def ReturnsAs {α : Type} (w : Writer α) (P : α → Prop) : Prop :=
  ∀ d a d', w.run.run d = (.ok a, d') → P a

section ResultRules

variable {α β : Type} {P : α → Prop} {Q : β → Prop}

theorem returnsAs_pure {a : α} (h : P a) : ReturnsAs (pure a) P := by
  rintro d _ d' ⟨⟩
  exact h

theorem returnsAs_true (w : Writer α) : ReturnsAs w fun _ => True := fun _ _ _ _ => trivial

theorem ReturnsAs.bind {w : Writer α} (hw : ReturnsAs w P) {f : α → Writer β}
    (hf : ∀ a, P a → ReturnsAs (f a) Q) : ReturnsAs (w >>= f) Q := by
  intro d b d' hrun
  obtain ⟨a, d₁, hfirst, hrest⟩ := run_bind_ok hrun
  exact hf a (hw d a d₁ hfirst) d₁ b d' hrest

theorem returnsAs_bind (w : Writer α) {f : α → Writer β} (hf : ∀ a, ReturnsAs (f a) Q) :
    ReturnsAs (w >>= f) Q :=
  (returnsAs_true w).bind fun a _ => hf a

theorem returnsAs_attempt {x : Attempt α} (h : ∀ a, x = .ok a → P a) : ReturnsAs (attempt x) P :=
  fun _ a _ hrun => h a (run_attempt_ok hrun).1

end ResultRules

/-! ## Failures -/

/-- An attempt all of whose failures have a property. -/
def ErrsAs {α : Type} (x : Attempt α) (P : Failure → Prop) : Prop := ∀ f, x = .error f → P f

/-- A step of writing all of whose failures have a property. -/
def FailsAs {α : Type} (w : Writer α) (P : Failure → Prop) : Prop :=
  ∀ d f d', w.run.run d = (.error f, d') → P f

/-- A step of writing that always fails. -/
def Fails {α : Type} (w : Writer α) : Prop := ∀ d, ∃ f d', w.run.run d = (.error f, d')

section FailureRules

variable {α β : Type} {P : Failure → Prop}

theorem errsAs_ok (a : α) : ErrsAs (.ok a) P := nofun

theorem errsAs_error {f : Failure} (h : P f) : ErrsAs (.error f : Attempt α) P := by
  rintro _ ⟨⟩
  exact h

theorem ErrsAs.bind {x : Attempt α} (hx : ErrsAs x P) {g : α → Attempt β}
    (hg : ∀ a, ErrsAs (g a) P) :
    ErrsAs (x >>= g) P := by
  cases x with
  | error e => exact errsAs_error (hx e rfl)
  | ok a => exact hg a

theorem errsAs_mapM {f : α → Attempt β} (hf : ∀ a, ErrsAs (f a) P) (xs : List α) :
    ErrsAs (xs.mapM f) P := by
  induction xs with
  | nil => exact errsAs_ok _
  | cons x xs ih =>
    rw [List.mapM_cons]
    exact (hf x).bind fun _ => ih.bind fun _ => errsAs_ok _

theorem errsAs_foldlM {f : β → α → Attempt β} (hf : ∀ b a, ErrsAs (f b a) P) (xs : List α) (b : β) :
    ErrsAs (xs.foldlM f b) P := by
  induction xs generalizing b with
  | nil => exact errsAs_ok _
  | cons x xs ih =>
    rw [List.foldlM_cons]
    exact (hf b x).bind fun b' => ih b'

theorem failsAs_pure (a : α) : FailsAs (pure a) P := nofun

theorem FailsAs.bind {w : Writer α} (hw : FailsAs w P) {f : α → Writer β}
    (hf : ∀ a, FailsAs (f a) P) : FailsAs (w >>= f) P := by
  intro d g d' hrun
  simp only [ExceptT.run_bind, StateT.run_bind] at hrun
  cases hw₁ : w.run.run d with
  | mk r d₁ =>
    rw [hw₁] at hrun
    cases r with
    | ok a => exact hf a d₁ g d' hrun
    | error e =>
      have hrun : (Except.error e, d₁) = (Except.error g, d') := hrun
      cases hrun
      exact hw d _ _ hw₁

theorem FailsAs.imp {w : Writer α} (hw : FailsAs w P) {P' : Failure → Prop} (h : ∀ f, P f → P' f) :
    FailsAs w P' := fun d f d' hrun => h f (hw d f d' hrun)

theorem failsAs_attempt {x : Attempt α} (h : ErrsAs x P) : FailsAs (attempt x) P := by
  intro d f d' hrun
  cases x with
  | ok a => cases hrun
  | error e =>
    have hrun : (Except.error e, d) = (Except.error f, d') := hrun
    cases hrun
    exact h _ rfl

/-- Nothing follows a failure. -/
theorem failsAs_throw_bind {f : Failure} (h : P f) (k : β → Writer α) :
    FailsAs ((throw f : Writer β) >>= k) P := by
  rintro d _ d' ⟨⟩
  exact h

theorem failsAs_modify (f : Draft → Draft) : FailsAs (modify f : Writer Unit) P := nofun

theorem failsAs_get : FailsAs (get : Writer Draft) P := nofun

theorem failsAs_forIn {γ : Type} {f : γ → Writer Unit} (hf : ∀ x, FailsAs (f x) P) (xs : List γ) :
    FailsAs (forIn xs PUnit.unit fun x _ => do f x; pure (.yield PUnit.unit)) P := by
  induction xs with
  | nil => exact failsAs_pure _
  | cons x xs ih =>
    simp only [List.forIn_cons, bind_assoc, pure_bind]
    exact (hf x).bind fun _ => ih

theorem fails_attempt {x : Attempt α} {f : Failure} (h : x = .error f) : Fails (attempt x) := by
  subst h
  exact fun d => ⟨f, d, rfl⟩

theorem fails_throw (f : Failure) : Fails (throw f : Writer α) := fun d => ⟨f, d, rfl⟩

theorem Fails.bind {w : Writer α} (h : Fails w) (f : α → Writer β) : Fails (w >>= f) := by
  intro d
  obtain ⟨g, d', hrun⟩ := h d
  refine ⟨g, d', ?_⟩
  simp only [ExceptT.run_bind, StateT.run_bind, hrun]
  rfl

/-- A step fails if what follows its first part always does. -/
theorem fails_bind {f : α → Writer β} (h : ∀ a, Fails (f a)) (w : Writer α) : Fails (w >>= f) := by
  intro d
  cases hw : w.run.run d with
  | mk r d₁ =>
    cases r with
    | ok a =>
      obtain ⟨g, d', hrun⟩ := h a d₁
      refine ⟨g, d', ?_⟩
      simp only [ExceptT.run_bind, StateT.run_bind, hw]
      exact hrun
    | error e =>
      refine ⟨e, d₁, ?_⟩
      simp only [ExceptT.run_bind, StateT.run_bind, hw]
      rfl

end FailureRules

/-! ## Warnings -/

/-- A step of writing that, where it succeeds, adds warnings to which its result is related. -/
def Adds {α : Type} (w : Writer α) (R : α → List Issue → Prop) : Prop :=
  ∀ d a d', w.run.run d = (.ok a, d') → ∃ added, d'.warnings = d.warnings ++ added ∧ R a added

section WarningRules

variable {α β : Type} {R : α → List Issue → Prop} {S : β → List Issue → Prop}

theorem adds_pure {a : α} (h : R a []) : Adds (pure a) R := by
  rintro d _ d' ⟨⟩
  exact ⟨[], (List.append_nil _).symm, h⟩

theorem Adds.bind {w : Writer α} (hw : Adds w R) {f : α → Writer β}
    (hf : ∀ a added, R a added → Adds (f a) fun b more => S b (added ++ more)) :
    Adds (w >>= f) S := by
  intro d b d' hrun
  obtain ⟨a, d₁, hfirst, hrest⟩ := run_bind_ok hrun
  obtain ⟨added, hadded, ha⟩ := hw d a d₁ hfirst
  obtain ⟨more, hmore, hb⟩ := hf a added ha d₁ b d' hrest
  exact ⟨added ++ more, by rw [hmore, hadded, List.append_assoc], hb⟩

theorem Adds.imp {w : Writer α} (hw : Adds w R) {R' : α → List Issue → Prop}
    (h : ∀ a added, R a added → R' a added) : Adds w R' := fun d a d' hrun =>
  let ⟨added, hadded, ha⟩ := hw d a d' hrun
  ⟨added, hadded, h a added ha⟩

theorem Adds.and {w : Writer α} (hw : Adds w R) {R' : α → List Issue → Prop} (hw' : Adds w R') :
    Adds w fun a added => R a added ∧ R' a added := by
  intro d a d' hrun
  obtain ⟨added, hadded, ha⟩ := hw d a d' hrun
  obtain ⟨added', hadded', ha'⟩ := hw' d a d' hrun
  have heq : added = added' := List.append_cancel_left (hadded.symm.trans hadded')
  exact ⟨added, hadded, ha, heq ▸ ha'⟩

theorem adds_attempt {x : Attempt α} (h : ∀ a, x = .ok a → R a []) : Adds (attempt x) R := by
  intro d a d' hrun
  obtain ⟨hx, rfl⟩ := run_attempt_ok hrun
  exact ⟨[], (List.append_nil _).symm, h a hx⟩

theorem adds_warn {R : Unit → List Issue → Prop} {issues : List Issue} (h : R () issues) :
    Adds (warn issues) R := by
  rintro d _ d' ⟨⟩
  exact ⟨issues, rfl, h⟩

/-- Nothing follows a failure. -/
theorem adds_throw_bind (f : Failure) (k : α → Writer β) : Adds ((throw f : Writer α) >>= k) S :=
  nofun

theorem adds_modify {R : Unit → List Issue → Prop} {f : Draft → Draft}
    (hf : ∀ d, (f d).warnings = d.warnings) (h : R () []) : Adds (modify f : Writer Unit) R := by
  rintro d _ d' ⟨⟩
  exact ⟨[], (hf d).trans (List.append_nil _).symm, h⟩

theorem adds_need {R : Unit → List Issue → Prop} (module : String) (names : List String)
    (h : R () []) :
    Adds (need module names) R :=
  adds_modify (fun _ => rfl) h

theorem adds_needAll {R : Unit → List Issue → Prop} (names : ModuleNames) (h : R () []) :
    Adds (needAll names) R :=
  adds_modify (fun _ => rfl) h

theorem adds_forIn {γ : Type} {f : γ → Writer Unit} (hf : ∀ x, Adds (f x) fun _ added => added = [])
    (xs : List γ) :
    Adds (forIn xs PUnit.unit fun x _ => do f x; pure (.yield PUnit.unit))
      fun _ added => added = [] := by
  induction xs with
  | nil => exact adds_pure rfl
  | cons x xs ih =>
    simp only [List.forIn_cons, bind_assoc, pure_bind]
    refine (hf x).bind fun _ added hnil => ?_
    subst hnil
    exact ih

end WarningRules

end WidgetBridge.Writing
