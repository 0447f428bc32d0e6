import WidgetBridge.Proofs.Route.Guard

/-!
# Navigation past guards

The order in which guards run is stable: it goes by descending priority, and guards of one priority
keep the order in which they were declared.  A navigation runs guards up to the first that rejects
it (`running`), and that guard alone decides how the navigation ends (`runGuards_eq`).
-/

namespace WidgetBridge.Route

/-! ## The run -/

section Run

variable (handlers : String → Option Handler) (target origin : String)

/-- Whether a guard lets a navigation pass: it has a handler, and the handler allows it. -/
def Guard.admits (g : Guard) : Bool := (handlers g.handler).any fun handler => handler target origin

/-- The first guard that rejects a navigation. -/
def rejecting? (gs : List Guard) : Option Guard :=
  gs.find? fun g => !g.admits handlers target origin

/-- The guards that run: those in front of the first one that rejects, and that one. -/
def running (gs : List Guard) : List Guard :=
  gs.takeWhile (Guard.admits handlers target origin) ++
    (rejecting? handlers target origin gs).toList

/-- How a navigation ends if some guards run and one of them, or none, rejects it. -/
def Passage.ending (unauthorized : String) (ran : List Guard) (rejecting : Option Guard) :
    Passage where
  allowed := rejecting.isNone
  redirect := rejecting.map fun _ => unauthorized
  executed := ran.map Guard.name
  rejectedBy := rejecting.map Guard.name
  asked := (ran.filter fun g => (handlers g.handler).isSome).map Guard.handler

variable {handlers target origin} {g : Guard} {gs : List Guard}

theorem running_cons_of_admits (h : g.admits handlers target origin = true) :
    running handlers target origin (g :: gs) = g :: running handlers target origin gs := by
  simp [running, rejecting?, h]

theorem running_cons_of_not_admits (h : g.admits handlers target origin = false) :
    running handlers target origin (g :: gs) = [g] := by
  simp [running, rejecting?, h]

theorem rejecting?_cons_of_admits (h : g.admits handlers target origin = true) :
    rejecting? handlers target origin (g :: gs) = rejecting? handlers target origin gs := by
  simp [rejecting?, h]

theorem rejecting?_cons_of_not_admits (h : g.admits handlers target origin = false) :
    rejecting? handlers target origin (g :: gs) = some g := by
  simp [rejecting?, h]

theorem rejecting?_eq_none_iff :
    rejecting? handlers target origin gs = none ↔
      ∀ g ∈ gs, g.admits handlers target origin = true := by
  simp [rejecting?]

/-- The run goes through the guards one by one, and ends with the first that has no handler or whose
handler refuses. -/
theorem runGuards_eq (unauthorized : String) (gs : List Guard) :
    runGuards handlers unauthorized target origin gs =
      Passage.ending handlers unauthorized (running handlers target origin gs)
        (rejecting? handlers target origin gs) := by
  induction gs with
  | nil => rfl
  | cons g gs ih =>
    rw [runGuards]
    cases hh : handlers g.handler with
    | none =>
      have hg : g.admits handlers target origin = false := by simp [Guard.admits, hh]
      rw [running_cons_of_not_admits hg, rejecting?_cons_of_not_admits hg]
      simp [Passage.ending, hh]
    | some handler =>
      have hg : g.admits handlers target origin = handler target origin := by
        simp [Guard.admits, hh]
      cases hallow : handler target origin with
      | true =>
        rw [hallow] at hg
        rw [running_cons_of_admits hg, rejecting?_cons_of_admits hg]
        simp [ih, Passage.ending, hh, hallow]
      | false =>
        rw [hallow] at hg
        rw [running_cons_of_not_admits hg, rejecting?_cons_of_not_admits hg]
        simp [Passage.ending, hh, hallow]

end Run

/-! ## Order and run -/

/-- Guards are put in order of descending priority, stably, and those of a route are picked from
that order.  A navigation runs the guards in that order up to the first that rejects. -/
theorem navigate_eq (gs : List Guard) :
    (orderGuards gs).Perm gs ∧
    (orderGuards gs).Pairwise (fun a b => b.priority ≤ a.priority) ∧
    (∀ n, (orderGuards gs).filter (fun g => g.priority = n) = gs.filter fun g => g.priority = n) ∧
    (∀ r phase, guardsFor gs r phase =
      (orderGuards gs).filter fun g => g.phase == phase && g.appliesTo r) ∧
    ∀ handlers unauthorized target origin,
      navigate gs handlers unauthorized target origin =
        Passage.ending handlers unauthorized (running handlers target origin (orderGuards gs))
          (rejecting? handlers target origin (orderGuards gs)) ∧
      ((navigate gs handlers unauthorized target origin).allowed = true ↔
        ∀ g ∈ gs, g.admits handlers target origin = true) := by
  refine ⟨orderGuards_perm gs, pairwise_orderGuards gs, filter_priority_orderGuards gs,
    fun r phase => orderGuards_filter _ gs, fun handlers unauthorized target origin => ?_⟩
  have hrun : navigate gs handlers unauthorized target origin = _ :=
    runGuards_eq unauthorized (orderGuards gs)
  refine ⟨hrun, ?_⟩
  rw [hrun, Passage.ending, Option.isNone_iff_eq_none, rejecting?_eq_none_iff]
  simp only [mem_orderGuards]

end WidgetBridge.Route
