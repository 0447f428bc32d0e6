import WidgetBridge.Proofs.Assoc
import WidgetBridge.Proofs.Route.GuardTable
import WidgetBridge.Route.WidgetRouter

/-!
# Routers

A schema is written as an application around a router, with the declarations of the guards beside
it. The search for a router goes through the tokens of the source and finds this one first
(`findCall_app`). From its arguments and the declarations comes the schema (`ofWidgetCall_eq`), and
so a schema that keeps all it has when it is written (`PortableSchema`) is read back
(`ofWidgetSource_appSource`).
-/

namespace WidgetBridge.Route

open WidgetBridge.Text WidgetBridge.Number WidgetBridge.WidgetGrammar

/-- A schema that keeps all it has when it is written. -/
structure PortableSchema (s : Schema) : Prop where
  transition : s.transition = Option.none
  initial : s.initial ≠ ""
  guardNames : (s.guards.map Guard.name).Nodup
  guards : ∀ g ∈ s.guards, isIdentifier g.name = true ∧ isName g.handler = true
  routes : ∀ r ∈ s.flatten, PortableRoute s r
  warnings : s.warnings = collisions s.flatten

/-- The source of an application with the declarations beside it. -/
def appSource (f : Fragment) (lead sep : String) : String :=
  "final app = " ++ f.markup ++ ";" ++ lead ++ join sep f.declarations

/-! ## The call of the router -/

/-- The arguments of a router. -/
def routerTexts (s : Schema) : List String :=
  ["initialLocation" ++ ": " ++ WidgetGrammar.string s.initial,
    "routes" ++ ": " ++ listText (routeTexts s s.routes)]

/-- What is known of the arguments of a router. -/
def routerSpecs (s : Schema) : List ArgSpec :=
  [(some "initialLocation", IsText s.initial), (some "routes", IsList (s.routes.map (IsRoute s)))]

section Router

variable {s : Schema}

theorem routerCall_eq (hs : PortableSchema s) :
    (routerCall s step).1 = callText "GoRouter" (routerTexts s) := by
  have hinitial : s.initial.isEmpty = false := by simpa using hs.initial
  have hlines := map_indentLines (routeCalls_eq hs.transition s.routes hs.routes)
  have hargs : ["initialLocation: " ++ WidgetGrammar.string (orText s.initial "/") ++ ",",
      "routes: [\n" ++ join "\n" ((routeCalls s step s.routes).map fun e => indentLines step e.1) ++
        "\n],"] =
      (routerTexts s).map fun a => a ++ "," := by
    rw [hlines, orText, hinitial, routerTexts, listText]
    simp [← String.toList_inj]
  unfold routerCall
  dsimp only
  have hne : routerTexts s ≠ [] := List.cons_ne_nil _ _
  rw [hargs, ← callText_eq hne]
  generalize indentLines step _ = lines
  refine String.toList_inj.1 ?_
  simp

theorem reads_routerCall (hs : PortableSchema s) :
    Reads (routerCall s step).1 (IsCall "GoRouter" (routerSpecs s)) := by
  have hroutes :=
    reads_listText (reads_routeTexts (fun g hg => (hs.guards g hg).1) s.routes hs.routes)
  have hargs : List.Forall₂ Phrase (routerTexts s) ((routerSpecs s).map ReadsArg) :=
    .cons (readsArg_named (reads_text s.initial) (by decide))
      (.cons (readsArg_named hroutes (by decide)) .nil)
  rw [routerCall_eq hs]
  exact reads_callText (by decide) hargs (List.cons_ne_nil _ _)

end Router

/-! ## The application -/

/-- The outline of an application around that of its router. -/
def appPieces (ps : List Piece) : List Piece :=
  [.word "" (.name "MaterialApp"), .word "" dot, .word "" (.name "router"),
    .group "" .round
      (leadWith "\n" (indentAll step true (keyed (.name "routerConfig") ps ++ [.word "" comma])))
        "\n"]

/-- The application around a router. -/
def appText (router : String) : String :=
  "MaterialApp.router(\n" ++ indentLines step ("routerConfig: " ++ router ++ ",") ++ "\n)"

section App

variable {router : String} {ps : List Piece} {vs : List TokenTree}

theorem single_routerConfig : (Word.name "routerConfig").Single := single_name (by decide)

theorem spelt_argument (h : Spelt router ps) :
    Spelt ("routerConfig: " ++ router ++ ",")
      (keyed (.name "routerConfig") ps ++ [.word "" comma]) :=
  (h.keyed single_routerConfig).append_soft spelt_comma (c := ',') rfl rfl

theorem spelt_app (h : Spelt router ps) : Spelt (appText router) (appPieces ps) := by
  have hpath :=
    spelt_path (by decide : isName "MaterialApp" = true) (by decide : isName "router" = true)
  have hinner := ((spelt_argument h).indent isIndent_step).lead (by decide : isGap "\n" = true)
  have hround := spelt_group .round hinner.toList_eq hinner.sound (by decide : isGap "" = true)
    (by decide : isGap "\n" = true)
  have hspelt := hpath.append_soft hround (c := '(') (by simp [Bracket.opener]) rfl
  have htext : "MaterialApp" ++ "." ++ "router" ++ ("" ++ Bracket.round.opener ++
      ("\n" ++ indentLines step ("routerConfig: " ++ router ++ ",")) ++ "\n" ++
        Bracket.round.closer) =
      appText router := by
    refine String.toList_inj.1 ?_
    unfold appText
    generalize indentLines step _ = lines
    simp [Bracket.opener, Bracket.closer]
  rw [htext] at hspelt
  exact hspelt

/-- The forest of an application around that of its router. -/
theorem matches_app (hp : Spelt router ps) (h : Matches vs (appPieces ps)) :
    ∃ head o inner z us e, vs = leaves head ++ [.group o inner z] ∧
      AreWords head [("", .name "MaterialApp"), ("", dot), ("", .name "router")] ∧
        o.IsWord (.mark "(") ∧
      ∃ key, inner = leaves key ++ (us ++ [.leaf e]) ∧
        AreWords key [("", .name "routerConfig"), ("", colon)] ∧ Matches us ps := by
  obtain ⟨a, _, rfl, ha, h₁⟩ := matches_word_cons.1 h
  obtain ⟨d, _, rfl, hd, h₂⟩ := matches_word_cons.1 h₁.matches
  obtain ⟨r, _, rfl, hr, h₃⟩ := matches_word_cons.1 h₂.matches
  obtain ⟨o, inner, z, _, rfl, ho, -, -, hinner, hnil⟩ := matches_group_cons.1 h₃.matches
  rw [showsAll_nil] at hnil
  subst hnil
  have harg := (matches_leadWith.1 hinner.matches).of_indent isIndent_step (spelt_argument hp).sound
  obtain ⟨keyed, end_, rfl, hkeyed, hend⟩ := (matches_append (List.cons_ne_nil _ _)).1 harg
  obtain ⟨k, c, us, rfl, hk, hc, hus⟩ := matches_keyed hkeyed
  obtain ⟨e, _, rfl, -, hnil⟩ := matches_word_cons.1 hend.matches
  rw [showsAll_nil] at hnil
  subst hnil
  exact ⟨[a, d, r], o, _, z, us, e, rfl, .cons ha (.cons hd (.cons hr .nil)), ho, [k, c], rfl,
    .cons hk (.cons hc .nil), hus⟩

end App

/-! ## The search for a router -/

section Search

variable {name : String} {accepts : List (Option String × Expr) → Bool}

theorem callTrees?_eq_none {t : Token} {ts rest : List TokenTree}
    (hnext : TokenTree.next? ts = some (t, rest)) (h : t.isName name = false) :
    callTrees? name ts = none := by
  rcases ts with _ | ⟨u | ⟨o, inner, c⟩, us⟩
  · cases hnext
  · cases hnext
    rw [callTrees?, h]
    exact if_neg Bool.false_ne_true
  · rfl

/-- A token that is not the name is passed over. -/
theorem findCall_next {t : Token} {ts rest : List TokenTree}
    (hnext : TokenTree.next? ts = some (t, rest)) (h : t.isName name = false) (fuel : Nat) :
    findCall name accepts (TokenTree.tails (fuel + 1) ts) =
      findCall name accepts (TokenTree.tails fuel rest) := by
  simp only [TokenTree.tails, hnext, findCall, callTrees?_eq_none hnext h]

theorem findCall_leaves {toks : List Token} {ws : List (String × Word)} (h : AreWords toks ws)
    (hne : ∀ w ∈ ws, w.2.isName name = false) (ts : List TokenTree) (fuel : Nat) :
    findCall name accepts (TokenTree.tails (fuel + toks.length) (leaves toks ++ ts)) =
      findCall name accepts (TokenTree.tails fuel ts) := by
  induction h with
  | nil => rfl
  | @cons t w toks ws ht _ ih =>
    rw [List.forall_mem_cons] at hne
    have hname : t.isName name = false := by rw [ht.isName_eq, ← Word.isName, hne.1]
    rw [List.length_cons, ← Nat.add_assoc, ← ih hne.2]
    exact findCall_next rfl hname _

/-- A call with the name is found. -/
theorem findCall_call {n o c : Token} {vs ts : List TokenTree} (hn : n.isName name = true)
    (ho : o.isPunct "(" = true) {r : Range} {callee type : String}
    {args : List (Option String × Expr)} {comments : List String}
    (hexpr : (Range.mk [.leaf n, .group o vs c] none).expr =
      .ok (.call r callee type args comments)) (haccepts : accepts args = true) (fuel : Nat) :
    findCall name accepts (TokenTree.tails (fuel + 1) (.leaf n :: .group o vs c :: ts)) =
      .ok (some (.call r callee type args comments, callee, args)) := by
  have htrees : callTrees? name (.leaf n :: .group o vs c :: ts) =
      some [.leaf n, .group o vs c] := by
    simp [callTrees?, hn, ho, dotted]
  simp only [TokenTree.tails, TokenTree.next?, findCall, htrees, hexpr, haccepts, bind,
    Except.bind, if_true]
  rfl

/-- In an application the router is found. -/
theorem findCall_app {router : String} {specs : List ArgSpec} {ps : List Piece}
    (hp : Spelt router ps)
    (hreads : ∀ ts, Matches ts ps → ∀ follow, ReadsAs (IsCall "GoRouter" specs) ⟨ts, follow⟩)
    {ts : List TokenTree} {m : Member} (hm : Assigns "app" (appPieces ps) m) (rest : List TokenTree)
    (hts : ts = m.range.trees ++ rest) :
    ∃ r args, findCall "GoRouter" (fun _ => true) (TokenTree.positions ts) =
        .ok (some (.call r "GoRouter" "" args [], "GoRouter", args)) ∧ ArgsMeet specs args ∧
      sizeOfExprs (args.map (·.2)) + 2 ≤ TokenTree.sizeOf' r.trees := by
  obtain ⟨toks, vs, e, htrees, htoks, hvs, -⟩ := hm.trees
  obtain ⟨head, o, inner, z, us, comma, rfl, hhead, ho, key, rfl, hkey, hus⟩ := matches_app hp hvs
  obtain ⟨_, hexpr, hrange, r, args, rfl, ⟨n, p, ws, c, hcall, hn, hround⟩, hmeet, hsize⟩ :=
    hreads us hus none _ (Nat.le_add_right _ 2)
  obtain rfl : r = ⟨us, none⟩ := hrange
  obtain rfl : us = [.leaf n, .group p ws c] := hcall
  have hopen : o.isName "GoRouter" = false := ho.isName_eq "GoRouter"
  have hforest :
      ts = leaves toks ++ (leaves head ++ (.group o (leaves key ++ (.leaf n :: .group p ws c ::
      [.leaf comma])) z :: (.leaf e :: rest))) := by
    rw [hts, htrees]
    simp
  obtain ⟨fuel, hfuel⟩ : ∃ fuel, TokenTree.sizeOf' ts =
      fuel + 1 + key.length + 1 + head.length + toks.length := by
    refine ⟨TokenTree.sizeOf' ts - (1 + key.length + 1 + head.length + toks.length), ?_⟩
    simp only [hforest, sizeOf'_append, sizeOf'_leaves, TokenTree.sizeOf', TokenTree.size]
    omega
  have hinside : findCall "GoRouter" (fun _ => true)
      (TokenTree.tails (fuel + 1) (.leaf n :: .group p ws c ::
      ([.leaf comma] ++ .leaf z :: .leaf e :: rest))) = _ :=
    findCall_call (hn.isName_eq "GoRouter") (hround.isPunct_eq "(") hexpr rfl fuel
  refine ⟨_, args, ?_, hmeet, hsize⟩
  rw [TokenTree.positions, hfuel, hforest, findCall_leaves htoks (by decide),
    findCall_leaves hhead (by decide), findCall_next rfl hopen, List.append_assoc,
    findCall_leaves hkey (by decide)]
  exact hinside

end Search

/-! ## From the router to the schema -/

/-- What is known of the declarations of an application with guards beside it. -/
def memberSpecs (guards : List Guard) (ps : List Piece) : List (Member → Prop) :=
  Assigns "app" ps :: if guards.isEmpty then []
    else [fun m => m.name = "NavigationGuard", fun m => m.name = "GuardType", HoldsGuards guards,
      fun m => m.name = "runGuards"]

/-- The guards are looked up by name. -/
theorem guards_of_members {guards : List Guard} {ps : List Piece} {ms : List Member}
    (h : MembersMeet (memberSpecs guards ps) ms) :
    (guards = [] ∧ (membersByName ms).get? guardsVariable = Option.none) ∨
      ∃ m, (membersByName ms).get? guardsVariable = some m ∧ guardsOfMember m = .ok guards := by
  unfold memberSpecs at h
  obtain ⟨app, others, happ, hothers, rfl⟩ := List.forall₂_cons_left_iff.1 h
  have hname := happ.name_eq
  by_cases hempty : guards.isEmpty = true
  · rw [if_pos hempty] at hothers
    obtain rfl := List.forall₂_nil_left_iff.1 hothers
    refine .inl ⟨List.isEmpty_iff.1 hempty, ?_⟩
    simp [membersByName, Assoc.ofPairs, Assoc.put, Assoc.has, Assoc.get?, hname, guardsVariable]
  · rw [if_neg hempty] at hothers
    obtain ⟨guard, _, hguard, h₁, rfl⟩ := List.forall₂_cons_left_iff.1 hothers
    obtain ⟨phases, _, hphases, h₂, rfl⟩ := List.forall₂_cons_left_iff.1 h₁
    obtain ⟨table, _, htable, h₃, rfl⟩ := List.forall₂_cons_left_iff.1 h₂
    obtain ⟨runner, _, hrunner, h₄, rfl⟩ := List.forall₂_cons_left_iff.1 h₃
    obtain rfl := List.forall₂_nil_left_iff.1 h₄
    refine .inr ⟨table, ?_, htable.2⟩
    have hkeys :
        (Assoc.keys ([app, guard, phases, table, runner].map fun m => (m.name, m))).Nodup := by
      simp [hname, hguard, hphases, htable.1, hrunner, guardsVariable]
    rw [membersByName, Assoc.ofPairs_of_nodup hkeys]
    refine Assoc.lookup_of_mem hkeys ?_
    simp [htable.1]

theorem ofWidgetCall_eq {s : Schema} (hs : PortableSchema s) {ps : List Piece} {ms : List Member}
    (hms : MembersMeet (memberSpecs s.guards ps) ms) {r : Range}
    {args : List (Option String × Expr)} (hargs : ArgsMeet (routerSpecs s) args)
    (hsize : sizeOfExprs (args.map (·.2)) + 2 ≤ TokenTree.sizeOf' r.trees) :
    (ofWidgetCall (.call r "GoRouter" "" args []) "GoRouter" args ms).map Reading.schema =
      .ok s := by
  obtain ⟨initial, hinitial, hpath, -⟩ := named?_of_meet hargs "initialLocation" rfl
  obtain ⟨_, hroutes, ⟨range, items, rfl, hitems, hle⟩, hmem⟩ := named?_of_meet hargs "routes" rfl
  have hpath : plainString? (some initial) = some s.initial := hpath
  have hinside := sizeOf'_le_of_mem hmem
  simp only [Expr.range] at hinside
  have hread : goRoutes (2 * TokenTree.sizeOf' r.trees + 2) "/" (callsOf "GoRoute" items) =
      .ok (listedAll s s.routes) :=
    goRoutes_of_meet hitems (by omega) "/"
  have horder : orRoot (some s.initial) = s.initial := by
    have hempty : s.initial.isEmpty = false := by simpa using hs.initial
    simp [orRoot, hempty]
  have hschema : Schema.assemble (listedAll s s.routes) s.initial s.guards = s := by
    rw [Schema.assemble, prunedAll_listedAll hs.guardNames s.routes fun q hq =>
      (hs.routes q hq).guards]
    obtain ⟨routes, initial, guards, transition, warnings⟩ := s
    obtain rfl : transition = Option.none := hs.transition
    exact congrArg (Schema.mk routes initial guards Option.none) hs.warnings.symm
  have hcall : ("GoRouter" == "GoRouter") = true := rfl
  unfold ofWidgetCall
  rcases guards_of_members hms with ⟨hnil, hget⟩ | ⟨m, hget, hguards⟩
  · rw [hnil] at hschema
    simp only [hget, hcall, if_true, resolveRouter, hinitial, hroutes, hpath, horder, hread,
      hschema, bind, Except.bind, pure, Except.pure, Except.map]
  · simp only [hget, hguards, hcall, if_true, resolveRouter, hinitial, hroutes, hpath, horder,
      hread, hschema, bind, Except.bind, pure, Except.pure, Except.map]

/-! ## Whole sources -/

section Sources

variable {s : Schema} {lead sep : String}

theorem lacks_appPieces (ps : List Piece) : lacks ";" (appPieces ps) = true := rfl

/-- The declarations of an application with the guards beside it. -/
theorem members_appSource (hs : PortableSchema s) (unauthorized : String) {ps : List Piece}
    (hp : Spelt (routerCall s step).1 ps) (hlead : isGap lead = true) (hlne : lead ≠ "")
    (hsep : isGap sep = true) (hsne : sep ≠ "") :
    ∃ source ms, Source.read (appSource (emit .widget s unauthorized step) lead sep) = .ok source ∧
      source.members = .ok ms ∧ MembersMeet (memberSpecs s.guards (appPieces ps)) ms ∧
      source.trees = ms.flatMap fun m => m.range.trees := by
  have happ : Declares ("final app = " ++ (emit .widget s unauthorized step).markup ++ ";")
      (Assigns "app" (appPieces ps)) := by
    have hfinal := declares_final (by decide : isName "app" = true) (by decide) (spelt_app hp)
      (lacks_appPieces ps)
    have hhead : "final " ++ "app" ++ " = " = "final app = " := rfl
    rwa [hhead] at hfinal
  have hbeside : (emit .widget s unauthorized step).declarations =
      if !s.guards.isEmpty then widgetGuards s unauthorized step else [] := rfl
  unfold memberSpecs appSource
  by_cases hempty : s.guards.isEmpty = true
  · rw [if_pos hempty, hbeside, hempty, Bool.not_true, if_neg Bool.false_ne_true, join,
      String.append_empty]
    exact members_of_row happ.row hlead
  · have hguards := declares_widgetGuards (fun g hg => (hs.guards g hg).2) unauthorized
    have hrow := declaresAll_join hguards (by simp [widgetGuards_eq]) hsep hsne hlead
    obtain ⟨c, hc, hsoft⟩ :=
      exists_soft_of_gap hlead hlne (join sep (widgetGuards s unauthorized step))
    have hsource :=
      members_of_row (declaresAll_cons happ hrow hc hsoft) (by decide : isGap "" = true)
    rw [if_neg hempty, hbeside, if_pos (by simpa using hempty)]
    simpa only [String.append_empty, String.append_assoc] using hsource

/-- A schema that keeps all it has when it is written is read back from an application with the
declarations of the guards beside it, whatever route is shown to those who are rejected. -/
theorem ofWidgetSource_appSource (hs : PortableSchema s) (unauthorized : String)
    (hlead : isGap lead = true) (hlne : lead ≠ "") (hsep : isGap sep = true) (hsne : sep ≠ "") :
    ofWidgetSource (appSource (emit .widget s unauthorized step) lead sep) = .ok s := by
  obtain ⟨ps, hspelt, -, hreads⟩ := reads_routerCall hs
  obtain ⟨source, ms, hread, hmembers, hmeet, htrees⟩ :=
    members_appSource hs unauthorized hspelt hlead hlne hsep hsne
  have hfirst := List.forall₂_cons_left_iff.1 hmeet
  obtain ⟨app, others, happ, -, rfl⟩ := hfirst
  obtain ⟨r, args, hfound, hargs, hsize⟩ := findCall_app hspelt hreads happ
    (others.flatMap fun m => m.range.trees) (htrees.trans List.flatMap_cons)
  have hcall := ofWidgetCall_eq hs hmeet hargs hsize
  unfold ofWidgetSource
  simp only [hread, hmembers, hfound, bind, Except.bind, pure, Except.pure]
  exact hcall

end Sources

/-- The page of an item, for members only. -/
def itemRoute : Route :=
  .mk "item" "item/:id" "Item" [{ name := "id" }] [] []
    (some { effect := .slideUp, duration := 250, easing := "easeIn" }) ["member"]

/-- A shop whose items are shown to members only. -/
def shop : Schema where
  routes := [.mk "home" "/" "Home" [] [itemRoute] [] Option.none []]
  initial := "/item/1"
  guards := [{ name := "member", handler := "isMember", routes := ["cart"], priority := 3 },
    { name := "log", handler := "record", phase := .after, priority := -1 }]

theorem portable_shop : PortableSchema shop where
  transition := rfl
  initial := by decide
  guardNames := by decide
  guards := by decide
  routes := by
    have hflat : shop.flatten =
      [.mk "home" "/" "Home" [] [itemRoute] [] Option.none [], itemRoute] := rfl
    have hmember : "member" ∈ (listable shop.guards "item" "item/:id").map Guard.name :=
      List.mem_map.2
        ⟨{ name := "member", handler := "isMember", routes := ["cart"], priority := 3 },
        List.mem_filter.2 ⟨mem_orderGuards.2 List.mem_cons_self, by decide⟩, rfl⟩
    rw [hflat, List.forall_mem_cons, List.forall_mem_singleton]
    refine ⟨⟨by decide, by decide +kernel, by decide, rfl, nofun, List.nil_sublist _⟩,
      ⟨by decide, by decide +kernel, by decide, rfl, ?_, List.singleton_sublist.2 hmember⟩⟩
    rintro t ⟨⟩
    exact ⟨by decide, by decide, by decide⟩
  warnings := by decide +kernel

theorem ofWidgetSource_shop :
    ofWidgetSource (appSource (emit .widget shop "/login" step) "\n" "\n\n") = .ok shop :=
  ofWidgetSource_appSource portable_shop "/login" (by decide) (by decide) (by decide) (by decide)

end WidgetBridge.Route
