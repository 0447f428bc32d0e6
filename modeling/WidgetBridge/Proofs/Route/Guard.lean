import Mathlib.Data.List.Nodup
import WidgetBridge.Route.Assembly
import WidgetBridge.Route.Emission

/-!
# Guards of routes

A route is written with all guards that run before it (`Schema.guardNames`), and what covers it
anyway is dropped when it is read (`pruned`).  So a route gets its own guards back (`pruned_listed`)
if they stand in the order in which guards run and are none of those that cover it.

The order of guards is stable, and so it does not matter whether guards are picked before or after
they are put in order (`orderGuards_filter`).
-/

namespace WidgetBridge.Route

/-! ## Order -/

private theorem priority_trans (a b c : Guard) : decide (b.priority ≤ a.priority) = true →
    decide (c.priority ≤ b.priority) = true → decide (c.priority ≤ a.priority) = true := by
  simp only [decide_eq_true_eq]
  omega

private theorem priority_total (a b : Guard) :
    (decide (b.priority ≤ a.priority) || decide (a.priority ≤ b.priority)) = true := by
  simp only [Bool.or_eq_true, decide_eq_true_eq]
  omega

/-- The first guard goes behind those of higher priority and in front of all others. -/
theorem orderGuards_cons (g : Guard) (gs : List Guard) : ∃ higher others,
    orderGuards (g :: gs) = higher ++ g :: others ∧ orderGuards gs = higher ++ others ∧
      (∀ h ∈ higher, g.priority < h.priority) ∧ ∀ h ∈ others, h.priority ≤ g.priority := by
  obtain ⟨higher, others, hcons, hrest, hhigher⟩ :=
    List.mergeSort_cons priority_trans priority_total g gs
  have hsorted := List.pairwise_mergeSort priority_trans priority_total (g :: gs)
  rw [hcons, List.pairwise_append, List.pairwise_cons] at hsorted
  refine ⟨higher, others, hcons, hrest, fun h hh => ?_, fun h hh => ?_⟩
  · simpa using hhigher h hh
  · simpa using hsorted.2.1.1 h hh

/-- A list of guards is split by a priority in one way only. -/
theorem append_inj_of_priority {n : Int} {as bs cs ds : List Guard} (h : as ++ bs = cs ++ ds)
    (ha : ∀ g ∈ as, n < g.priority) (hb : ∀ g ∈ bs, g.priority ≤ n)
    (hc : ∀ g ∈ cs, n < g.priority) (hd : ∀ g ∈ ds, g.priority ≤ n) : as = cs ∧ bs = ds := by
  have key : ∀ {xs ys : List Guard}, (∀ g ∈ xs, n < g.priority) → (∀ g ∈ ys, g.priority ≤ n) →
      (xs ++ ys).filter (fun g => decide (n < g.priority)) = xs := by
    intro xs ys hx hy
    rw [List.filter_append, List.filter_eq_self.2 (by simpa using hx),
      List.filter_eq_nil_iff.2 (by simpa using hy), List.append_nil]
  have hac : as = cs := by rw [← key ha hb, h, key hc hd]
  subst hac
  exact ⟨rfl, List.append_cancel_left h⟩

theorem orderGuards_filter (p : Guard → Bool) (gs : List Guard) :
    orderGuards (gs.filter p) = (orderGuards gs).filter p := by
  induction gs with
  | nil => simp [orderGuards]
  | cons g gs ih =>
    obtain ⟨higher, others, hcons, hrest, hhigher, hothers⟩ := orderGuards_cons g gs
    rw [hrest, List.filter_append] at ih
    rw [hcons, List.filter_append]
    by_cases hp : p g = true
    · rw [List.filter_cons_of_pos hp, List.filter_cons_of_pos hp]
      obtain ⟨higher', others', hcons', hrest', hhigher', hothers'⟩ :=
        orderGuards_cons g (gs.filter p)
      rw [hrest'] at ih
      obtain ⟨rfl, rfl⟩ := append_inj_of_priority ih hhigher' hothers'
        (fun h hh => hhigher h (List.mem_of_mem_filter hh))
        (fun h hh => hothers h (List.mem_of_mem_filter hh))
      exact hcons'
    · rw [List.filter_cons_of_neg hp, List.filter_cons_of_neg hp, ih]

theorem mem_orderGuards {g : Guard} {gs : List Guard} : g ∈ orderGuards gs ↔ g ∈ gs :=
  List.mem_mergeSort

theorem orderGuards_perm (gs : List Guard) : (orderGuards gs).Perm gs := List.mergeSort_perm gs _

theorem pairwise_orderGuards (gs : List Guard) :
    (orderGuards gs).Pairwise fun a b => b.priority ≤ a.priority := by
  have hsorted := List.pairwise_mergeSort priority_trans priority_total gs
  simpa only [orderGuards, decide_eq_true_eq] using hsorted

/-- Guards of one priority keep their order. -/
theorem filter_priority_orderGuards (gs : List Guard) (n : Int) :
    (orderGuards gs).filter (fun g => g.priority = n) = gs.filter fun g => g.priority = n := by
  rw [← orderGuards_filter]
  refine List.mergeSort_of_pairwise (List.pairwise_of_forall_mem_list fun a ha b hb => ?_)
  have ha := List.of_mem_filter ha
  have hb := List.of_mem_filter hb
  simp only [decide_eq_true_eq] at ha hb ⊢
  omega

/-! ## Guards that a route lists -/

/-- The guards that a route may list, in the order in which they run: those that run before it and
do not cover it anyway. -/
def listable (guards : List Guard) (name path : String) : List Guard :=
  (orderGuards guards).filter fun g => g.phase == .before && !g.covers name path

theorem appliesTo_eq (g : Guard) (r : Route) :
    g.appliesTo r = (g.covers r.name r.path || r.guards.contains g.name) := rfl

/-- Of texts without repetition, those that are in a part of them make up this part. -/
theorem filter_contains_of_sublist {as bs : List String} (h : as.Sublist bs) (hb : bs.Nodup) :
    bs.filter (fun b => as.contains b) = as := by
  induction h with
  | slnil => rfl
  | @cons as bs b h ih =>
    rw [List.nodup_cons] at hb
    have hne : b ∉ as := fun hm => hb.1 (h.subset hm)
    rw [List.filter_cons_of_neg (by simpa using hne), ih hb.2]
  | @cons_cons as bs b h ih =>
    rw [List.nodup_cons] at hb
    have hsame : bs.filter (fun x => (b :: as).contains x) =
        bs.filter (fun x => as.contains x) := by
      refine List.filter_congr fun x hx => ?_
      have hxb : x ≠ b := by
        rintro rfl
        exact hb.1 hx
      simp [hxb]
    rw [List.filter_cons_of_pos (by simp), hsame, ih hb.2]

/-- Guards are told apart by their names. -/
theorem any_covers {guards : List Guard} (hnames : (guards.map Guard.name).Nodup) {g : Guard}
    (hg : g ∈ guards) (name path : String) :
    (guards.any fun h => h.name == g.name && h.covers name path) = g.covers name path := by
  rw [Bool.eq_iff_iff, List.any_eq_true]
  constructor
  · rintro ⟨h, hh, hc⟩
    rw [Bool.and_eq_true, beq_iff_eq] at hc
    have heq : h = g := List.inj_on_of_nodup_map hnames hh hg hc.1
    exact heq ▸ hc.2
  · intro hc
    exact ⟨g, hg, by simp [hc]⟩

theorem filter_guardNames {s : Schema} (hnames : (s.guards.map Guard.name).Nodup) {r : Route}
    (hr : r.guards.Sublist ((listable s.guards r.name r.path).map Guard.name)) :
    (s.guardNames r).filter (fun name => !s.guards.any fun g =>
      g.name == name && g.covers r.name r.path) = r.guards := by
  have hlisted : ((listable s.guards r.name r.path).map Guard.name).Nodup := by
    have hperm := (orderGuards_perm s.guards).map Guard.name
    exact (hperm.nodup_iff.2 hnames).sublist (List.filter_sublist.map Guard.name)
  rw [← filter_contains_of_sublist hr hlisted, Schema.guardNames, guardsFor, orderGuards_filter,
    listable, List.filter_map, List.filter_map, List.filter_filter, List.filter_filter]
  congr 1
  refine List.filter_congr fun g hg => ?_
  simp only [Function.comp_apply, any_covers hnames (mem_orderGuards.1 hg), appliesTo_eq]
  cases g.covers r.name r.path <;> cases g.phase == Phase.before <;> simp

/-! ## Routes as they are written -/

mutual

/-- A route with the names of all guards that run before it, and the routes below it likewise. -/
def listed (s : Schema) : Route → Route
  | .mk n p c ps cs i t gs =>
    .mk n p c ps (listedAll s cs) i t (s.guardNames (.mk n p c ps cs i t gs))

/-- Routes with the names of all guards that run before them. -/
def listedAll (s : Schema) : List Route → List Route
  | [] => []
  | r :: rs => listed s r :: listedAll s rs

end

/-- The guards of a route are among those that it may list, without repetition and in their
order. -/
def OwnGuards (guards : List Guard) (r : Route) : Prop :=
  r.guards.Sublist ((listable guards r.name r.path).map Guard.name)

mutual

theorem pruned_listed {s : Schema} (hnames : (s.guards.map Guard.name).Nodup) :
    (r : Route) → (∀ q ∈ r.flat, OwnGuards s.guards q) → pruned s.guards (listed s r) = r
  | .mk n p c ps cs i t gs, h => by
    have hown := filter_guardNames hnames (h (.mk n p c ps cs i t gs) List.mem_cons_self)
    have hbelow := prunedAll_listedAll hnames cs fun q hq => h q (List.mem_cons_of_mem _ hq)
    rw [listed, pruned, hbelow]
    exact congrArg (Route.mk n p c ps cs i t) hown

theorem prunedAll_listedAll {s : Schema} (hnames : (s.guards.map Guard.name).Nodup) :
    (rs : List Route) → (∀ q ∈ flatAll rs, OwnGuards s.guards q) →
      prunedAll s.guards (listedAll s rs) = rs
  | [], _ => rfl
  | r :: rs, h => by
    rw [listedAll, prunedAll, pruned_listed hnames r fun q hq => h q (List.mem_append_left _ hq),
      prunedAll_listedAll hnames rs fun q hq => h q (List.mem_append_right _ hq)]

end

end WidgetBridge.Route
