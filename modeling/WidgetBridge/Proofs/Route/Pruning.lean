import WidgetBridge.Proofs.Route.Guard

/-!
# Guards that a route no longer lists

A route does not list the guards that cover it anyway (`pruned`).  Guards are listed by name, and so
a guard is lost (`Guard.isLost`) if the route lists it, it does not cover the route, and another
guard of the same name does.  All other guards run as before (`guardsFor_pruned`); none is lost if
the names of the guards are distinct (`isLost_eq_false`).
-/

namespace WidgetBridge.Route

/-- Whether a route loses a guard that it lists to another guard of the same name, which covers
it. -/
def Guard.isLost (guards : List Guard) (r : Route) (g : Guard) : Bool :=
  r.guards.contains g.name && !g.covers r.name r.path &&
    guards.any fun h => h.name == g.name && h.covers r.name r.path

variable {guards : List Guard}

/-- Guards of different names do not get in each other's way. -/
theorem isLost_eq_false (hnames : (guards.map Guard.name).Nodup) {g : Guard} (hg : g ∈ guards)
    (r : Route) : g.isLost guards r = false := by
  rw [Guard.isLost, any_covers hnames hg]
  cases g.covers r.name r.path <;> simp

theorem contains_filter (names : List String) (p : String → Bool) (name : String) :
    (names.filter p).contains name = (names.contains name && p name) := by
  rw [Bool.eq_iff_iff]
  simp only [List.contains_iff_mem, List.mem_filter, Bool.and_eq_true]

theorem appliesTo_pruned (g : Guard) (r : Route) :
    g.appliesTo (pruned guards r) = (g.appliesTo r && !g.isLost guards r) := by
  cases r with
  | mk n p c ps cs i t gs =>
    simp only [pruned, appliesTo_eq, Guard.isLost, name, path, Route.guards, contains_filter]
    cases g.covers n p <;> cases gs.contains g.name <;> simp

/-- Without the names that are implied a route has the guards that it had, but for the lost ones. -/
theorem guardsFor_pruned (r : Route) (phase : Phase) :
    guardsFor guards (pruned guards r) phase =
      (guardsFor guards r phase).filter fun g => !g.isLost guards r := by
  rw [guardsFor, guardsFor, ← orderGuards_filter, List.filter_filter]
  congr 1
  refine List.filter_congr fun g _ => ?_
  rw [appliesTo_pruned, ← Bool.and_assoc, Bool.and_comm]

mutual

theorem forall₂_pruned_flat {R : Route → Route → Prop} (hR : ∀ r, R (pruned guards r) r) :
    (r : Route) → List.Forall₂ R (pruned guards r).flat r.flat
  | .mk n p c ps cs i t gs => by
    have hroot := hR (.mk n p c ps cs i t gs)
    rw [pruned] at hroot ⊢
    rw [flat, flat]
    exact List.Forall₂.cons hroot (forall₂_pruned_flatAll hR cs)

theorem forall₂_pruned_flatAll {R : Route → Route → Prop} (hR : ∀ r, R (pruned guards r) r) :
    (rs : List Route) → List.Forall₂ R (flatAll (prunedAll guards rs)) (flatAll rs)
  | [] => List.Forall₂.nil
  | r :: rs => by
    rw [prunedAll, flatAll, flatAll]
    exact List.rel_append (forall₂_pruned_flat hR r) (forall₂_pruned_flatAll hR rs)

end

/-- The routes of a tree keep their guards, of each phase, exactly if none of these is lost to
another guard of its name; the guards that are left run in the order in which they ran. -/
theorem guardsFor_prunedAll (guards : List Guard) (rs : List Route) :
    List.Forall₂ (fun after before => ∀ phase,
        guardsFor guards after phase =
          (guardsFor guards before phase).filter (fun g => !g.isLost guards before) ∧
        (guardsFor guards after phase = guardsFor guards before phase ↔
          ∀ g ∈ guards, g.phase = phase → g.isLost guards before = false))
      (flatAll (prunedAll guards rs)) (flatAll rs) := by
  refine forall₂_pruned_flatAll (fun r phase => ⟨guardsFor_pruned r phase, ?_⟩) rs
  rw [guardsFor_pruned, List.filter_eq_self]
  simp only [guardsFor, mem_orderGuards, List.mem_filter, Bool.and_eq_true, beq_iff_eq,
    Bool.not_eq_true', and_imp]
  refine ⟨fun h g hg hp => ?_, fun h g hg hp _ => h g hg hp⟩
  cases hlost : g.isLost guards r with
  | false => rfl
  | true =>
    have happlies : g.appliesTo r = true := by
      rw [Guard.isLost, Bool.and_eq_true, Bool.and_eq_true] at hlost
      rw [appliesTo_eq, hlost.1.1, Bool.or_true]
    rw [← hlost, h g hg hp happlies]

/-- A route under `/home` lists `auth`.  The guard of this name that runs before it covers another
route, but one that runs after it covers this one: without the name nothing runs before the
route. -/
theorem guardsFor_pruned_homonym :
    let check : Guard := { name := "auth", handler := "check", routes := ["/admin"] }
    let trace : Guard :=
      { name := "auth", handler := "trace", phase := .after, routes := ["/home"] }
    let home : Route := .mk "home" "/home" "Home" [] [] [] none ["auth"]
    guardsFor [check, trace] home .before = [check] ∧
      guardsFor [check, trace] (pruned [check, trace] home) .before = [] := by
  refine ⟨?_, ?_⟩
  · exact List.mergeSort_singleton _
  · exact List.mergeSort_nil

end WidgetBridge.Route
