import WidgetBridge.Proofs.Route.Tree
import WidgetBridge.Proofs.WidgetGrammar.Block

/-!
# The table of guards

Guards are written as a table of calls (`guardTable`), one for each guard, and each call is read as
its guard (`reads_guardCall`).  So the table is read as the guards that it was written for
(`declares_guardTable`). Beside the table stand the classes of guards and the function that runs
them; of these only the names matter (`declares_widgetGuards`).
-/

namespace WidgetBridge.Route

open WidgetBridge.Text WidgetBridge.Number WidgetBridge.WidgetGrammar

/-! ## One guard -/

/-- The arguments of a guard. -/
def guardTexts (g : Guard) : List String :=
  ["name" ++ ": " ++ WidgetGrammar.string g.name,
    "type" ++ ": " ++ ("GuardType" ++ "." ++ g.phase.name), "handler" ++ ": " ++ g.handler] ++
    (if g.routes.isEmpty then []
      else ["routes" ++ ": " ++ ("const " ++ ofValue (.list (g.routes.map .str)))]) ++
    ["priority" ++ ": " ++ showInt g.priority]

/-- What is known of the arguments of a guard. -/
def guardSpecs (g : Guard) : List ArgSpec :=
  [(some "name", Writes (.str g.name)),
    (some "type", fun e => e.text = "GuardType" ++ "." ++ g.phase.name),
    (some "handler", fun e => e.text = g.handler)] ++
    (if g.routes.isEmpty then [] else [(some "routes", Writes (.list (g.routes.map .str)))]) ++
    [(some "priority", Writes (.int g.priority))]

/-- A call that is read as a guard. -/
def IsGuard (g : Guard) (e : Expr) : Prop :=
  ∃ range args, e = .call range "NavigationGuard" "" args [] ∧ guardOfCall args = .ok (some g)

section Guard

variable {g : Guard}

theorem ofItems_map_str (texts : List String) :
    ofItems (texts.map .str) = texts.map WidgetGrammar.string := by
  induction texts with
  | nil => rfl
  | cons a texts ih => rw [List.map_cons, ofItems, ih, List.map_cons, ofValue]

theorem exactItems_map_str (texts : List String) : ExactItems (texts.map .str) := by
  induction texts with
  | nil => trivial
  | cons a texts ih => exact ⟨trivial, ih⟩

theorem guardCall_eq (h : isName g.handler = true) :
    guardCall g = "NavigationGuard" ++ "(" ++ join ", " (guardTexts g) ++ "" ++ ")" := by
  have hopen : guardCall g = "NavigationGuard(" ++ join ", " (
      ["name: " ++ WidgetGrammar.string g.name, "type: GuardType." ++ g.phase.name,
        "handler: " ++ if g.handler.isEmpty then "(to, from) => true" else g.handler] ++
      (if g.routes.isEmpty then []
        else ["routes: const [" ++ join ", " (g.routes.map WidgetGrammar.string) ++ "]"]) ++
      ["priority: " ++ showInt g.priority]) ++ ")" := rfl
  have htype : "type: GuardType." ++ g.phase.name =
      "type" ++ ": " ++ ("GuardType" ++ "." ++ g.phase.name) := by
    cases g.phase <;> decide
  have hroutes : "routes: const [" ++ join ", " (g.routes.map WidgetGrammar.string) ++ "]" =
      "routes" ++ ": " ++ ("const " ++ ofValue (.list (g.routes.map .str))) := by
    rw [ofValue, ofItems_map_str, ← String.toList_inj]
    simp
  have hhandler : g.handler.isEmpty = false := by simpa using ne_empty_of_isName h
  rw [hopen, hhandler, if_neg Bool.false_ne_true, htype, hroutes, String.append_empty]
  rfl

theorem reads_phase (p : Phase) :
    Reads ("GuardType" ++ "." ++ p.name) fun e => e.text = "GuardType" ++ "." ++ p.name := by
  have hpath := reads_path (by decide : isCallable "GuardType" = true)
    (by cases p <;> decide : isName p.name = true)
  exact (hpath.text (by cases p <;> decide)).imp fun _ he => he.2

theorem reads_handler {s : String} (h : isName s = true) : Reads s fun e => e.text = s :=
  ((reads_name h).text (isInline_of_isName h)).imp fun _ he => he.2

theorem constant?_withRange (r : Range) (e : Expr) : constant? (e.withRange r) = constant? e := by
  cases e <;> rfl

theorem reads_routeList (texts : List String) : Reads ("const " ++ ofValue (.list (texts.map .str)))
    (Writes (.list (texts.map .str))) := by
  have hlist := reads_ofValue (.list (texts.map .str)) (exactItems_map_str texts)
  refine (reads_const hlist (c := '[') (by simp [ofValue]) (by decide)).imp ?_
  rintro _ ⟨e, r, he, rfl⟩
  rw [Writes, constant?_withRange]
  exact he

theorem phrase_guardTexts (h : isName g.handler = true) :
    List.Forall₂ Phrase (guardTexts g) ((guardSpecs g).map ReadsArg) := by
  have hname :=
    readsArg_named (reads_ofValue (.str g.name) trivial) (by decide : isName "name" = true)
  have htype := readsArg_named (reads_phase g.phase) (by decide : isName "type" = true)
  have hhandler := readsArg_named (reads_handler h) (by decide : isName "handler" = true)
  have hroutes : List.Forall₂ Phrase
      (if g.routes.isEmpty then []
        else ["routes" ++ ": " ++ ("const " ++ ofValue (.list (g.routes.map .str)))])
      ((if g.routes.isEmpty then [] else [(some "routes", Writes (.list (g.routes.map .str)))] :
        List ArgSpec).map ReadsArg) := by
    split_ifs
    · exact .nil
    · exact .cons (readsArg_named (reads_routeList g.routes) (by decide)) .nil
  have hpriority :=
    readsArg_named (reads_ofValue (.int g.priority) trivial) (by decide : isName "priority" = true)
  rw [guardTexts, guardSpecs, List.map_append, List.map_append]
  exact List.rel_append (List.rel_append (.cons hname (.cons htype (.cons hhandler .nil))) hroutes)
    (.cons hpriority .nil)

/-- The fields of a guard as they are read. -/
def guardFields (g : Guard) : List (String × Value) :=
  [("name", .str g.name), ("type", .str g.phase.name)] ++
    (if g.routes.isEmpty then [] else [("routes", .list (g.routes.map .str))]) ++
    [("priority", .int g.priority)]

theorem ofFields_guardFields (g : Guard) :
    Guard.ofFields (Assoc.ofPairs (guardFields g)) g.handler = .ok (some g) := by
  have htexts : (g.routes.map Value.str).map Value.text = g.routes := by
    simp [Value.text, Function.comp_def]
  obtain ⟨name, handler, phase, routes, priority⟩ := g
  cases routes with
  | nil => cases phase <;> rfl
  | cons a routes =>
    cases phase
    · exact congrArg (fun rs => Except.ok (some (Guard.mk name handler .before rs priority))) htexts
    · exact congrArg (fun rs => Except.ok (some (Guard.mk name handler .after rs priority))) htexts

theorem guardOfCall_of_meet {args : List (Option String × Expr)}
    (h : ArgsMeet (guardSpecs g) args) :
    guardOfCall args = .ok (some g) := by
  have hphase : ((cutLast? ("GuardType" ++ "." ++ g.phase.name) ".").map (·.2)).getD
      ("GuardType" ++ "." ++ g.phase.name) = g.phase.name := by
    cases g.phase <;> decide
  rw [← ofFields_guardFields g]
  obtain ⟨⟨_, name⟩, _, ⟨rfl, hname⟩, h₁, rfl⟩ := List.forall₂_cons_left_iff.1 h
  obtain ⟨⟨_, type⟩, _, ⟨rfl, htype⟩, h₂, rfl⟩ := List.forall₂_cons_left_iff.1 h₁
  obtain ⟨⟨_, handler⟩, _, ⟨rfl, hhandler⟩, h₃, rfl⟩ := List.forall₂_cons_left_iff.1 h₂
  have hname : constant? name = some (.str g.name) := hname
  have htype : ((cutLast? type.text ".").map (·.2)).getD type.text = g.phase.name := by
    have htext : type.text = "GuardType" ++ "." ++ g.phase.name := htype
    rw [htext, hphase]
  have hhandler : handler.text = g.handler := hhandler
  by_cases hempty : g.routes.isEmpty = true
  · rw [if_pos hempty] at h₃
    obtain ⟨⟨_, priority⟩, _, ⟨rfl, hpriority⟩, h₄, rfl⟩ := List.forall₂_cons_left_iff.1 h₃
    obtain rfl := List.forall₂_nil_left_iff.1 h₄
    have hpriority : constant? priority = some (.int g.priority) := hpriority
    simp [guardOfCall, guardFields, Expr.named?, hname, htype, hhandler, hpriority, hempty]
  · rw [if_neg hempty] at h₃
    obtain ⟨⟨_, routes⟩, _, ⟨rfl, hroutes⟩, h₄, rfl⟩ := List.forall₂_cons_left_iff.1 h₃
    obtain ⟨⟨_, priority⟩, _, ⟨rfl, hpriority⟩, h₅, rfl⟩ := List.forall₂_cons_left_iff.1 h₄
    obtain rfl := List.forall₂_nil_left_iff.1 h₅
    have hroutes : constant? routes = some (.list (g.routes.map .str)) := hroutes
    have hpriority : constant? priority = some (.int g.priority) := hpriority
    simp [guardOfCall, guardFields, Expr.named?, hname, htype, hhandler, hroutes, hpriority, hempty]

theorem reads_guardCall (h : isName g.handler = true) : Reads (guardCall g) (IsGuard g) := by
  have hcall := reads_call (by decide : isCallable "NavigationGuard" = true)
    (listing_inline (phrase_guardTexts h)) "" (by decide)
  rw [guardCall_eq h]
  refine hcall.imp ?_
  rintro _ ⟨range, args, rfl, -, hmeet, -⟩
  exact ⟨range, args, rfl, guardOfCall_of_meet hmeet⟩

end Guard

/-! ## All guards -/

/-- The table of guards. -/
def guardTable (guards : List Guard) : String :=
  join "\n" (("final " ++ guardsVariable ++ " = <NavigationGuard>[") ::
    guards.map (fun g => step ++ guardCall g ++ ",") ++ ["];"])

/-- What is known of the declaration of the guards. -/
def HoldsGuards (guards : List Guard) (m : Member) : Prop :=
  m.name = guardsVariable ∧ guardsOfMember m = .ok guards

theorem filterMapM_guardOfCall {guards : List Guard} {items : List Expr}
    (h : Meet (guards.map IsGuard) items) :
    (callsOf "NavigationGuard" items).filterMapM guardOfCall = .ok guards := by
  induction guards generalizing items with
  | nil =>
    cases h
    rfl
  | cons g guards ih =>
    obtain ⟨e, items, ⟨range, args, rfl, hguard⟩, hitems, rfl⟩ := List.forall₂_cons_left_iff.1 h
    have hcalls : callsOf "NavigationGuard" (.call range "NavigationGuard" "" args [] :: items) =
        args :: callsOf "NavigationGuard" items := by
      simp [callsOf]
    rw [hcalls, List.filterMapM_cons, hguard]
    exact congrArg (Except.map (g :: ·)) (ih hitems)

theorem guardTable_eq (guards : List Guard) :
    guardTable guards = "final " ++ guardsVariable ++ " = " ++
    ("<" ++ "NavigationGuard" ++ ">" ++
      ("[" ++ String.join ((guards.map guardCall).map fun a => "\n  " ++ a ++ ",") ++ "\n" ++
        "]")) ++ ";" := by
  have hitem : ("\n" ++ ·) ∘ (fun g => step ++ guardCall g ++ ",") =
      (fun a => "\n  " ++ a ++ ",") ∘ guardCall := by
    funext g
    refine String.toList_inj.1 ?_
    simp [step]
  rw [guardTable, join_cons_concat, List.map_map, List.map_map, hitem]
  refine String.toList_inj.1 ?_
  simp

/-- The table of guards is read as these guards. -/
theorem declares_guardTable {guards : List Guard} (h : ∀ g ∈ guards, isName g.handler = true) :
    Declares (guardTable guards) (HoldsGuards guards) := by
  have hitems : List.Forall₂ Phrase (guards.map guardCall) ((guards.map IsGuard).map ReadsAs) := by
    rw [List.map_map, List.forall₂_map_left_iff, List.forall₂_map_right_iff]
    exact List.forall₂_same.2 fun g hg => reads_guardCall (h g hg)
  obtain ⟨ps, hspelt, hlacks, hreads⟩ :=
    exists_typedList (by decide : isName "NavigationGuard" = true)
    (listing_gaps (by decide : isGap "\n  " = true) hitems) "\n" (by decide)
  rw [guardTable_eq]
  have hfinal := declares_final (by decide : isName guardsVariable = true) (by decide) hspelt hlacks
  refine hfinal.imp fun m hm => ⟨hm.name_eq, ?_⟩
  obtain ⟨toks, vs, e, -, -, hvs, hinit⟩ := hm.trees
  obtain ⟨_, hexpr, -, r, items, rfl, hmeet, -⟩ := hreads vs hvs (some e) _ (Nat.le_add_right _ 2)
  have hread : (Range.mk vs (some e)).expr = .ok (.list r items) := hexpr
  rw [guardsOfMember, hinit]
  simp only [hread, bind, Except.bind]
  exact filterMapM_guardOfCall hmeet

/-! ## Declarations beside the table -/

/-- The class of guards. -/
def guardClass : String := "class NavigationGuard \x7b
  const NavigationGuard(\x7b
    required this.name,
    required this.type,
    required this.handler,
    this.routes = const [],
    this.priority = 0,
  \x7d);

  final String name;
  final GuardType type;
  final bool Function(String to, String? from) handler;
  final List<String> routes;
  final int priority;
\x7d"

/-- The type of guards. -/
def guardPhases : String := "enum GuardType \x7b before, after \x7d"

/-- What the function that runs guards does before its loop, and the head of the loop. -/
def runnerStart : String := "
  final active = routeGuards
    .where((guard) => guard.type == GuardType.before && names.contains(guard.name))
    .toList();
  mergeSort(active, compare: (a, b) => b.priority.compareTo(a.priority));
  for (final guard in active)"

/-- What runs one guard. -/
def runnerTest : String := "
    if (!guard.handler(state.matchedLocation, null))"

/-- The block of the function that runs guards, without its brackets. -/
def runnerBody (unauthorized : String) : String :=
  runnerStart ++ (" " ++ "\x7b" ++ (runnerTest ++ (" " ++ "\x7b" ++ ("\n      return" ++
    (" " ++ WidgetGrammar.string unauthorized) ++ ";") ++ "\n    " ++ "\x7d")) ++
      "\n  " ++ "\x7d") ++
      "\n  return null;"

/-- The function that runs guards. -/
def guardRunner (unauthorized : String) : String :=
  "String?" ++ (" " ++ "runGuards") ++ ("(" ++ "List<String> names, GoRouterState state" ++ ")") ++
    (" \x7b" ++ runnerBody unauthorized ++ "\n" ++ "\x7d")

set_option maxRecDepth 4000 in
theorem widgetGuards_eq (s : Schema) (unauthorized : String) :
    widgetGuards s unauthorized step =
      [guardClass, guardPhases, guardTable s.guards, guardRunner unauthorized] := by
  refine congrArg₂ List.cons ?_
    (congrArg₂ List.cons rfl (congrArg₂ List.cons rfl (congrArg (fun x => [x]) ?_)))
  all_goals
    refine String.toList_inj.1 ?_
    unfold times step
  · simp only [join, guardClass, String.toList_append]
    -- each text as its list of characters, which the kernel reads faster
    repeat rw [String.toList_ofList]
    rfl
  · simp only [join, guardRunner, runnerBody, runnerStart, runnerTest, guardsVariable,
      String.toList_append, List.append_assoc]
    repeat rw [String.toList_ofList]
    rfl

set_option maxRecDepth 4000 in
theorem getless_runnerBody (unauthorized : String) : Getless (runnerBody unauthorized) := by
  have hstart : Getless runnerStart := getless_ofList (by decide +kernel)
  have htest : Getless runnerTest := getless_ofList (by decide +kernel)
  have hreturn : Getless "\n      return" := getless_ofList (by decide +kernel)
  have hend : Getless ";" := getless_ofList (by decide +kernel)
  have hnull : Getless "\n  return null;" := getless_ofList (by decide +kernel)
  have hvalue :=
    (hreturn.append_soft ((getless_string unauthorized).lead (g := " ") rfl) (c := ' ') (by simp)
    rfl).append_soft hend (c := ';') rfl rfl
  have hreject := htest.block hvalue (by decide : isGap "\n    " = true)
  have hloop := hstart.block hreject (by decide : isGap "\n  " = true)
  exact hloop.append_soft hnull (c := '\n') rfl rfl

set_option maxRecDepth 4000 in
theorem declares_guardClass : Declares guardClass fun m => m.name = "NavigationGuard" :=
  declares_class (by decide +kernel)

theorem declares_guardPhases : Declares guardPhases fun m => m.name = "GuardType" :=
  declares_class (by decide +kernel)

theorem declares_guardRunner (unauthorized : String) :
    Declares (guardRunner unauthorized) fun m => m.name = "runGuards" := by
  have hmark : Spelt "?" [.word "" (.mark "?")] := (single_mark (by decide) rfl rfl).spelt
  have hhead : Spelt "String?" (rowOf [("", .name "String"), ("", .mark "?")]) :=
    (single_name (by decide : isName "String" = true)).spelt.append hmark fun d hd => by
      cases hd
      rfl
  have hparams : Getless "List<String> names, GoRouterState state" :=
    getless_ofList (by decide +kernel)
  exact declares_function hhead (by decide) (by decide) (by decide) (by decide) hparams
    (getless_runnerBody unauthorized) (by decide)

/-- The guards are written with their classes and the function that runs them. -/
theorem declares_widgetGuards {s : Schema} (h : ∀ g ∈ s.guards, isName g.handler = true)
    (unauthorized : String) :
    List.Forall₂ Declares (widgetGuards s unauthorized step)
      [fun m => m.name = "NavigationGuard", fun m => m.name = "GuardType", HoldsGuards s.guards,
        fun m => m.name = "runGuards"] := by
  rw [widgetGuards_eq]
  exact .cons declares_guardClass (.cons declares_guardPhases
    (.cons (declares_guardTable h) (.cons (declares_guardRunner unauthorized) .nil)))

end WidgetBridge.Route
