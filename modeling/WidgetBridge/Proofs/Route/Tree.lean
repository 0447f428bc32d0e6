import WidgetBridge.Proofs.Route.Guard
import WidgetBridge.Proofs.Route.Page

/-!
# Trees of routes

A route is written as a call with its path, its name, its page, a redirection to its guards and the
calls of the routes below it (`routeText`).  `PortableRoute` says which routes keep all they have.
Such a route is read back (`reads_routeText`), with the names of all guards that run before it.
-/

namespace WidgetBridge.Route

open WidgetBridge.Text WidgetBridge.Number WidgetBridge.WidgetGrammar

/-- A route that keeps all it has when it is written. -/
structure PortableRoute (s : Schema) (r : Route) : Prop where
  name : r.name ≠ ""
  params : r.params = paramsOf r.path
  component : isCapitalized r.component = true
  info : r.info = []
  transition : ∀ t ∈ r.transition, t.Portable
  guards : OwnGuards s.guards r

/-! ## Arguments of a route -/

/-- An expression that writes a text. -/
def IsText (a : String) (e : Expr) : Prop := plainString? (some e) = some a

theorem reads_text (a : String) : Reads (WidgetGrammar.string a) (IsText a) := by
  have h : Reads (String.ofList (quoted [.text a])) _ :=
    reads_literal (by simp [Part.Writable]) (by simp)
  rw [ofList_quoted_text] at h
  refine h.imp fun e he => ?_
  obtain ⟨r, rfl⟩ := he
  simp [IsText, plainString?, mergeParts_fused_text, hasHole_fused_text, plainText_fused_text]

/-- The page of a route. -/
def pageText (r : Route) : String :=
  match r.transition with
  | Option.none => "builder" ++ ": " ++ aroundPage (r.component ++ "()")
  | some t => "pageBuilder" ++ ": " ++ aroundPage (pageCall t r.component)

/-- What is known of the page of a route. -/
def pageSpec (r : Route) : ArgSpec :=
  match r.transition with
  | Option.none => (some "builder", IsBuilder r.component)
  | some t => (some "pageBuilder", IsPage t r.component)

/-- The arguments of a route, without the routes below it. -/
def ownTexts (s : Schema) (r : Route) : List String :=
  ["path" ++ ": " ++ WidgetGrammar.string r.path, "name" ++ ": " ++ WidgetGrammar.string r.name,
    pageText r] ++
    if (s.guardNames r).isEmpty then [] else ["redirect" ++ ": " ++ redirection (s.guardNames r)]

/-- What is known of the arguments of a route, without the routes below it. -/
def ownSpecs (s : Schema) (r : Route) : List ArgSpec :=
  [(some "path", IsText r.path), (some "name", IsText r.name), pageSpec r] ++
    if (s.guardNames r).isEmpty then []
    else [(some "redirect", fun e => redirectGuards (some e) = s.guardNames r)]

section Own

variable {s : Schema} {r : Route}

theorem phrase_pageText (hr : PortableRoute s r) : Phrase (pageText r) (ReadsArg (pageSpec r)) := by
  unfold pageText pageSpec
  cases ht : r.transition with
  | none => exact readsArg_named (reads_builder hr.component) (by decide)
  | some t => exact readsArg_named (reads_pageCall (hr.transition t ht) hr.component) (by decide)

theorem isIdentifier_of_mem_guardNames (hs : ∀ g ∈ s.guards, isIdentifier g.name = true)
    {n : String} (hn : n ∈ s.guardNames r) : isIdentifier n = true := by
  obtain ⟨g, hg, rfl⟩ := List.mem_map.1 hn
  exact hs g (List.mem_of_mem_filter (mem_orderGuards.1 hg))

/-- The names of guards as a constant list. -/
def nameList (names : List String) : String :=
  "const " ++ ("[" ++ join ", " (names.map WidgetGrammar.string) ++ "" ++ "]")

theorem readsArg_nameList {names : List String} (h : ∀ n ∈ names, isIdentifier n = true) :
    Phrase (nameList names) (ReadsArg (none, fun _ => True)) := by
  have hitems : List.Forall₂ Phrase (names.map WidgetGrammar.string)
      ((names.map fun n => IsText n).map ReadsAs) := by
    rw [List.map_map, List.forall₂_map_left_iff, List.forall₂_map_right_iff]
    exact List.forall₂_same.2 fun n _ => reads_text n
  have hlist := reads_list (listing_inline hitems) "" (by decide)
  have hconst := reads_const hlist (c := '[') (by simp) (by decide)
  refine readsArg_positional (hconst.imp fun _ _ => trivial) ?_
  unfold nameList
  simpa using not_mem_join_names h (c := ':') (by decide) (by decide)

theorem redirection_eq (names : List String) : redirection names =
    aroundPage ("runGuards" ++ "(" ++ join ", " [nameList names, "state"] ++ "" ++ ")") := by
  refine String.toList_inj.1 ?_
  unfold redirection aroundPage nameList closureHead
  simp [join]

theorem isInline_redirection {names : List String} (h : ∀ n ∈ names, isIdentifier n = true) :
    isInline (redirection names) = true := by
  refine isInline_iff.2 ⟨?_, ?_⟩ <;> unfold redirection
  · simpa using not_mem_join_names h (c := '\n') (by decide) (by decide)
  · simp

/-- A redirection is read with the names of its guards. -/
theorem reads_redirection {names : List String} (h : ∀ n ∈ names, isIdentifier n = true)
    (hne : names ≠ []) :
    Reads (redirection names) fun e => redirectGuards (some e) = names := by
  have hargs : List.Forall₂ Phrase [nameList names, "state"]
      (([(none, fun _ => True), (none, fun _ => True)] : List ArgSpec).map ReadsArg) :=
    .cons (readsArg_nameList h)
      (.cons (readsArg_positional (reads_name (by decide)) (by decide)) .nil)
  have hcall := reads_call (by decide : isCallable "runGuards" = true) (listing_inline hargs) ""
    (by decide)
  have hclosure := reads_aroundPage hcall
  rw [← redirection_eq] at hclosure
  exact (hclosure.text (isInline_redirection h)).imp fun e he => redirectGuards_eq h hne he.2

theorem phrase_ownTexts (hs : ∀ g ∈ s.guards, isIdentifier g.name = true) (hr : PortableRoute s r) :
    List.Forall₂ Phrase (ownTexts s r) ((ownSpecs s r).map ReadsArg) := by
  have hpath := readsArg_named (reads_text r.path) (by decide : isName "path" = true)
  have hname := readsArg_named (reads_text r.name) (by decide : isName "name" = true)
  have hredirect : List.Forall₂ Phrase
      (if (s.guardNames r).isEmpty then []
        else ["redirect" ++ ": " ++ redirection (s.guardNames r)])
      ((if (s.guardNames r).isEmpty then []
        else [(some "redirect", fun e => redirectGuards (some e) = s.guardNames r)] :
          List ArgSpec).map ReadsArg) := by
    split_ifs with hempty
    · exact .nil
    · have hnames := reads_redirection (fun n hn => isIdentifier_of_mem_guardNames hs hn)
        (by simpa using hempty)
      exact .cons (readsArg_named hnames (by decide)) .nil
  rw [ownTexts, ownSpecs, List.map_append]
  exact List.rel_append (.cons hpath (.cons hname (.cons (phrase_pageText hr) .nil))) hredirect

theorem transitionOf_eq (hs : s.transition = Option.none) (r : Route) :
    s.transitionOf r = r.transition := by
  unfold Schema.transitionOf
  rw [hs]
  cases r.transition <;> rfl

/-- The arguments of a route are those, with a comma after each. -/
theorem routeArguments_eq (hs : s.transition = Option.none) (hr : PortableRoute s r) :
    (routeArguments s step r).1 = (ownTexts s r).map fun a => a ++ "," := by
  have hbuilder : "builder: (context, state) => " ++ (r.component ++ "()") ++ "," =
      "builder" ++ ": " ++ aroundPage (r.component ++ "()") ++ "," := by
    refine String.toList_inj.1 ?_
    unfold aroundPage closureHead
    simp
  have hredirect : (if (s.guardNames r).isEmpty then []
      else ["redirect: (context, state) => runGuards(const [" ++
        join ", " ((s.guardNames r).map WidgetGrammar.string) ++ "], state),"]) =
      (if (s.guardNames r).isEmpty then []
        else ["redirect" ++ ": " ++ redirection (s.guardNames r)]).map fun a => a ++ "," := by
    split_ifs
    · rfl
    · rw [List.map_singleton, List.singleton_inj]
      refine String.toList_inj.1 ?_
      unfold redirection
      simp
  unfold routeArguments ownTexts pageText
  rw [widgetText_eq hr.component, transitionOf_eq hs, List.map_append, ← hredirect]
  cases ht : r.transition with
  | none =>
    dsimp only
    rw [hbuilder]
    rfl
  | some t =>
    have hportable := hr.transition t ht
    dsimp only
    rw [if_neg (by simpa using hportable.effect.1), pageBuilder_eq hportable hr.component]
    rfl

end Own

/-! ## Texts of trees -/

/-- A list with each item on lines of its own. -/
def listText (items : List String) : String :=
  "[" ++ ("\n" ++ join "\n" (items.map fun a => indentLines step (a ++ ","))) ++ "\n" ++ "]"

/-- A call with each argument on lines of its own. -/
def callText (callee : String) (args : List String) : String :=
  callee ++ "(" ++ ("\n" ++ join "\n" (args.map fun a => indentLines step (a ++ ","))) ++ "\n" ++
    ")"

/-- The argument for the routes below a route. -/
def belowTexts (routes : List String) : List String :=
  if routes.isEmpty then [] else ["routes" ++ ": " ++ listText routes]

mutual

/-- The call of a route. -/
def routeText (s : Schema) : Route → String
  | .mk n p c ps cs i t g =>
    callText "GoRoute" (ownTexts s (.mk n p c ps cs i t g) ++ belowTexts (routeTexts s cs))

/-- The calls of several routes. -/
def routeTexts (s : Schema) : List Route → List String
  | [] => []
  | r :: rs => routeText s r :: routeTexts s rs

end

theorem callText_eq {callee : String} {args : List String} (h : args ≠ []) :
    callee ++ "(\n" ++ indentLines step (join "\n" (args.map fun a => a ++ ",")) ++ "\n)" =
      callText callee args := by
  rw [indentLines_join _ (by simpa using h), List.map_map]
  refine String.toList_inj.1 ?_
  unfold callText
  simp [Function.comp_def]

/-- Calls that end with a comma keep it when they are moved to the right. -/
theorem map_indentLines {calls : List (String × List String)} {texts : List String}
    (h : calls.map Prod.fst = texts.map fun a => a ++ ",") :
    calls.map (fun e => indentLines step e.1) = texts.map fun a => indentLines step (a ++ ",") := by
  have hmap := congrArg (List.map (indentLines step)) h
  rwa [List.map_map, List.map_map] at hmap

theorem ownTexts_ne_nil (s : Schema) (r : Route) (as : List String) : ownTexts s r ++ as ≠ [] := by
  simp [ownTexts]

mutual

/-- A route is written as its call and a comma. -/
theorem routeCall_eq {s : Schema} (hs : s.transition = Option.none) :
    (r : Route) → (∀ q ∈ r.flat, PortableRoute s q) →
    (routeCall s step r).1 = routeText s r ++ ","
  | .mk n p c ps cs i t g, h => by
    have hown := routeArguments_eq hs (h (.mk n p c ps cs i t g) List.mem_cons_self)
    have hbelow := routeCalls_eq hs cs fun q hq => h q (List.mem_cons_of_mem _ hq)
    have hchildren : (if (routeCalls s step cs).isEmpty then []
        else ["routes: [\n" ++
          join "\n" ((routeCalls s step cs).map fun e => indentLines step e.1) ++
          "\n],"]) = (belowTexts (routeTexts s cs)).map fun a => a ++ "," := by
      have hempty : (routeCalls s step cs).isEmpty = (routeTexts s cs).isEmpty := by
        rw [← List.isEmpty_map (f := Prod.fst), hbelow, List.isEmpty_map]
      unfold belowTexts
      rw [hempty, map_indentLines hbelow]
      split_ifs
      · rfl
      · rw [List.map_singleton, List.singleton_inj]
        refine String.toList_inj.1 ?_
        unfold listText
        simp
    rw [routeCall, routeText, ← callText_eq (ownTexts_ne_nil s _ _)]
    dsimp only
    rw [hown, hchildren, ← List.map_append]
    generalize indentLines step _ = lines
    refine String.toList_inj.1 ?_
    simp

/-- Routes are written one after the other. -/
theorem routeCalls_eq {s : Schema} (hs : s.transition = Option.none) :
    (rs : List Route) → (∀ q ∈ flatAll rs, PortableRoute s q) →
    (routeCalls s step rs).map Prod.fst = (routeTexts s rs).map fun a => a ++ ","
  | [], _ => rfl
  | r :: rs, h => by
    rw [routeCalls, routeTexts, List.map_cons, List.map_cons,
      routeCall_eq hs r fun q hq => h q (List.mem_append_left _ hq),
      routeCalls_eq hs rs fun q hq => h q (List.mem_append_right _ hq)]

end

/-! ## Reading a route -/

/-- A call that is read as a route, given enough fuel. -/
def IsRoute (s : Schema) (r : Route) (e : Expr) : Prop :=
  ∃ range args, e = .call range "GoRoute" "" args [] ∧ ∀ fuel parent,
    2 * TokenTree.sizeOf' range.trees ≤ fuel → goRoute fuel parent args = .ok (listed s r)

/-- What is known of the routes below a route. -/
def belowSpecs (s : Schema) (rs : List Route) : List ArgSpec :=
  if rs.isEmpty then [] else [(some "routes", IsList (rs.map (IsRoute s)))]

theorem goRoutes_of_meet {s : Schema} {rs : List Route} {items : List Expr}
    (h : Meet (rs.map (IsRoute s)) items) {fuel : Nat} (hf : 2 * sizeOfExprs items + 1 ≤ fuel)
    (parent : String) : goRoutes fuel parent (callsOf "GoRoute" items) = .ok (listedAll s rs) := by
  induction rs generalizing items fuel with
  | nil =>
    cases h
    obtain ⟨fuel, rfl⟩ := Nat.exists_eq_succ_of_ne_zero (by omega : fuel ≠ 0)
    rfl
  | cons r rs ih =>
    obtain ⟨e, items, ⟨range, args, rfl, hroute⟩, hitems, rfl⟩ := List.forall₂_cons_left_iff.1 h
    rw [sizeOfExprs_cons] at hf
    obtain ⟨fuel, rfl⟩ := Nat.exists_eq_succ_of_ne_zero (by omega : fuel ≠ 0)
    simp only [Expr.range] at hf
    have hfirst := hroute fuel parent (by omega)
    have hrest := ih hitems (by omega : 2 * sizeOfExprs items + 1 ≤ fuel)
    have hcalls : callsOf "GoRoute" (.call range "GoRoute" "" args [] :: items) =
        args :: callsOf "GoRoute" items := by
      simp [callsOf]
    rw [hcalls, goRoutes, listedAll]
    simp only [hfirst, hrest, bind, Except.bind, pure, Except.pure]

section Read

variable {s : Schema} {r : Route} {args : List (Option String × Expr)}

/-- What is known of the arguments of a route. -/
def routeSpecs (s : Schema) (r : Route) : List ArgSpec := ownSpecs s r ++ belowSpecs s r.children

theorem plainString?_path (h : ArgsMeet (routeSpecs s r) args) :
    plainString? (Expr.named? args "path") = some r.path := by
  obtain ⟨e, he, htext, -⟩ := named?_of_meet h "path" rfl
  rw [he]
  exact htext

theorem plainString?_name (h : ArgsMeet (routeSpecs s r) args) :
    plainString? (Expr.named? args "name") = some r.name := by
  obtain ⟨e, he, htext, -⟩ := named?_of_meet h "name" rfl
  rw [he]
  exact htext

theorem redirectGuards_of_meet (h : ArgsMeet (routeSpecs s r) args) :
    redirectGuards (Expr.named? args "redirect") = s.guardNames r := by
  by_cases hempty : (s.guardNames r).isEmpty
  · have hnone : (routeSpecs s r).find? (fun x => x.1 == some "redirect") = none := by
      unfold routeSpecs ownSpecs belowSpecs pageSpec
      rw [if_pos hempty]
      cases r.transition <;> cases r.children <;> rfl
    rw [named?_eq_none h "redirect" hnone, List.isEmpty_iff.1 hempty]
    rfl
  · have hsome : (routeSpecs s r).find? (fun x => x.1 == some "redirect") =
        some (some "redirect", fun e => redirectGuards (some e) = s.guardNames r) := by
      unfold routeSpecs ownSpecs pageSpec
      rw [if_neg hempty]
      cases r.transition <;> rfl
    obtain ⟨e, he, hguards, -⟩ := named?_of_meet h "redirect" hsome
    rw [he]
    exact hguards

theorem routes_of_meet (h : ArgsMeet (routeSpecs s r) args) :
    (Expr.named? args "routes" = none ∧ r.children = []) ∨
      ∃ range items, Expr.named? args "routes" = some (.list range items) ∧
        Meet (r.children.map (IsRoute s)) items ∧
          sizeOfExprs items + 2 ≤ sizeOfExprs (args.map (·.2)) := by
  by_cases hempty : r.children.isEmpty
  · have hnone : (routeSpecs s r).find? (fun x => x.1 == some "routes") = none := by
      unfold routeSpecs ownSpecs belowSpecs pageSpec
      rw [if_pos hempty]
      cases r.transition <;> cases s.guardNames r <;> rfl
    exact .inl ⟨named?_eq_none h "routes" hnone, List.isEmpty_iff.1 hempty⟩
  · have hsome : (routeSpecs s r).find? (fun x => x.1 == some "routes") =
        some (some "routes", IsList (r.children.map (IsRoute s))) := by
      unfold routeSpecs ownSpecs belowSpecs pageSpec
      rw [if_neg hempty]
      cases r.transition <;> cases s.guardNames r <;> rfl
    obtain ⟨e, he, ⟨range, items, rfl, hmeet, hsize⟩, hmem⟩ := named?_of_meet h "routes" hsome
    have hle := sizeOf'_le_of_mem hmem
    simp only [Expr.range] at hle
    exact .inr ⟨range, items, he, hmeet, by omega⟩

/-- What a route shows, and how it appears. -/
theorem page_of_meet (h : ArgsMeet (routeSpecs s r) args) :
    (r.transition = Option.none ∧ ∃ range params body block,
      Expr.named? args "builder" = some (.closure range params body block) ∧
        shownComponent body = r.component) ∨
      ∃ t range params range' page comments block, r.transition = some t ∧
        Expr.named? args "builder" = none ∧ Expr.named? args "pageBuilder" =
          some (.closure range params
            (some (.call range' "CustomTransitionPage" "" page comments)) block) ∧
        pageTransition "CustomTransitionPage" page = .ok (some t) ∧
          shownComponent (Expr.named? page "child") = r.component := by
  cases ht : r.transition with
  | none =>
    have hsome : (routeSpecs s r).find? (fun x => x.1 == some "builder") =
        some (some "builder", IsBuilder r.component) := by
      unfold routeSpecs ownSpecs pageSpec
      rw [ht]
      rfl
    obtain ⟨e, he, ⟨range, params, body, block, rfl, hshown⟩, -⟩ := named?_of_meet h "builder" hsome
    exact .inl ⟨rfl, range, params, body, block, he, hshown⟩
  | some t =>
    have hnone : (routeSpecs s r).find? (fun x => x.1 == some "builder") = none := by
      unfold routeSpecs ownSpecs belowSpecs pageSpec
      rw [ht]
      cases s.guardNames r <;> cases r.children <;> rfl
    have hsome : (routeSpecs s r).find? (fun x => x.1 == some "pageBuilder") =
        some (some "pageBuilder", IsPage t r.component) := by
      unfold routeSpecs ownSpecs pageSpec
      rw [ht]
      rfl
    obtain ⟨e, he, ⟨range, params, range', page, comments, block, rfl, hpage, hshown⟩, -⟩ :=
      named?_of_meet h "pageBuilder" hsome
    exact .inr
      ⟨t, range, params, range', page, comments, block, rfl, named?_eq_none h "builder" hnone, he,
      hpage, hshown⟩

theorem listed_eq (s : Schema) (r : Route) : listed s r = .mk r.name r.path r.component r.params
    (listedAll s r.children) r.info r.transition (s.guardNames r) := by
  cases r
  rfl

/-- The arguments of a route are read as the route, given enough fuel. -/
theorem goRoute_of_meet (hr : PortableRoute s r) (h : ArgsMeet (routeSpecs s r) args) {fuel : Nat}
    (hf : 2 * sizeOfExprs (args.map (·.2)) ≤ fuel) (parent : String) :
    goRoute (fuel + 1) parent args = .ok (listed s r) := by
  have hname (full : String) : routeName (some r.name) full = r.name := by
    have hne : r.name.isEmpty = false := by simpa using hr.name
    simp [routeName, hne]
  rw [listed_eq, hr.params, hr.info, goRoute]
  simp only [plainString?_path h, plainString?_name h, redirectGuards_of_meet h,
    Option.getD_some, hname]
  rcases page_of_meet h with ⟨ht, _, _, _, _, hbuilder, hshown⟩ |
    ⟨t, _, _, _, _, _, _, ht, hbuilder, hpage, htransition, hshown⟩
  case' inl => rw [hbuilder, ht, ← hshown]
  case' inr =>
    rw [hbuilder, hpage, ht, ← hshown]
    dsimp only
    rw [htransition]
  -- whatever the page is, the routes below are read in the same way
  all_goals
    rcases routes_of_meet h with ⟨hnone, hchildren⟩ | ⟨range, items, hsome, hmeet, hsize⟩
    · rw [hnone, hchildren]
      rfl
    · rw [hsome]
      simp only [goRoutes_of_meet hmeet (by omega : 2 * sizeOfExprs items + 1 ≤ fuel)]
      rfl

end Read

/-! ## Reading trees -/

theorem reads_listText {as : List String} {Ps : List (Expr → Prop)}
    (h : List.Forall₂ Phrase as (Ps.map ReadsAs)) : Reads (listText as) (IsList Ps) := by
  cases as with
  | nil =>
    have hnil : Ps = [] := by
      cases Ps with
      | nil => rfl
      | cons P Ps => cases h
    subst hnil
    have hlisting : Listing "" (([] : List (Expr → Prop)).map ReadsAs) := listing_nil
    have htext : "[" ++ "" ++ "\n\n" ++ "]" = listText [] := by decide
    exact htext ▸ reads_list hlisting "\n\n" (by decide)
  | cons a as =>
    exact reads_list (listing_lines isIndent_step h (List.cons_ne_nil _ _)) "\n" (by decide)

theorem reads_callText {callee : String} (hcallee : isCallable callee = true) {as : List String}
    {specs : List ArgSpec} (h : List.Forall₂ Phrase as (specs.map ReadsArg)) (hne : as ≠ []) :
    Reads (callText callee as) (IsCall callee specs) :=
  reads_call hcallee (listing_lines isIndent_step h hne) "\n" (by decide)

mutual

/-- A route is read back, with the names of all guards that run before it. -/
theorem reads_routeText {s : Schema} (hs : ∀ g ∈ s.guards, isIdentifier g.name = true) :
    (r : Route) →
    (∀ q ∈ r.flat, PortableRoute s q) → Reads (routeText s r) (IsRoute s r)
  | .mk n p c ps cs i t g, h => by
    have hr := h (.mk n p c ps cs i t g) List.mem_cons_self
    have hbelow := reads_routeTexts hs cs fun q hq => h q (List.mem_cons_of_mem _ hq)
    have hroutes : List.Forall₂ Phrase (belowTexts (routeTexts s cs))
        ((belowSpecs s cs).map ReadsArg) := by
      unfold belowTexts belowSpecs
      cases cs with
      | nil => exact .nil
      | cons q qs => exact .cons (readsArg_named (reads_listText hbelow) (by decide)) .nil
    have hargs : List.Forall₂ Phrase
        (ownTexts s (.mk n p c ps cs i t g) ++ belowTexts (routeTexts s cs))
        ((routeSpecs s (.mk n p c ps cs i t g)).map ReadsArg) := by
      rw [routeSpecs, List.map_append]
      exact List.rel_append (phrase_ownTexts hs hr) hroutes
    rw [routeText]
    refine (reads_callText (by decide) hargs (ownTexts_ne_nil s _ _)).imp fun e he => ?_
    obtain ⟨range, args, rfl, -, hmeet, hsize⟩ := he
    refine ⟨range, args, rfl, fun fuel parent hf => ?_⟩
    obtain ⟨fuel, rfl⟩ := Nat.exists_eq_succ_of_ne_zero (by omega : fuel ≠ 0)
    exact goRoute_of_meet hr hmeet (by omega) parent

/-- Routes are read back one by one. -/
theorem reads_routeTexts {s : Schema} (hs : ∀ g ∈ s.guards, isIdentifier g.name = true) :
    (rs : List Route) → (∀ q ∈ flatAll rs, PortableRoute s q) →
      List.Forall₂ Phrase (routeTexts s rs) ((rs.map (IsRoute s)).map ReadsAs)
  | [], _ => .nil
  | r :: rs, h => .cons (reads_routeText hs r fun q hq => h q (List.mem_append_left _ hq))
      (reads_routeTexts hs rs fun q hq => h q (List.mem_append_right _ hq))

end

end WidgetBridge.Route
