import WidgetBridge.Motion.Wrappers
import WidgetBridge.Proofs.Assoc
import WidgetBridge.Proofs.Text.Match
import WidgetBridge.Proofs.WidgetGrammar.MemberSlices
import WidgetBridge.Route.WidgetRouter
import WidgetBridge.State.WidgetScan

/-!
# Hazards of widget sources

The readers of wrappers, routers and state go through the expressions and members of a source.  They
fail with a place, or for one of the hazards that `Hazard` lists: a conversion of a piece of the
source that nothing guards.
-/

namespace WidgetBridge.Reading

open WidgetBridge.Text WidgetBridge.Number WidgetBridge.WidgetGrammar

/-- What makes the reading of a source fail without a place: the piece of the source that is at
fault, and the conversion that fails on it. -/
inductive Hazard (source : String) : Failure → Prop
  /-- An escape whose digits name no character, or a digit that starts no number. -/
  | lexeme {f : Failure} : LexFault source.toList f → Hazard source f
  /-- A source that ends in a word that declares a class. -/
  | classEnd {s : Source} : Source.read source = .ok s → EndsInClass s.tokens →
    Hazard source .pastEnd
  /-- A superclass whose type arguments do not end. -/
  | superclass {s : Source} {ms : List Member} {m : Member} {f : Failure} :
    Source.read source = .ok s →
    s.members = .ok ms → m ∈ ms → m.superTypeArgs = .error f → Hazard source f
  /-- An interval whose start is no number, or too large a one. -/
  | interval {part : String} {m : Pattern.Match} {total : Int} {f : Failure} :
    part.toList <:+: source.toList → Motion.Form.interval.matchStart? part = some m →
    (Motion.readDouble (m.get 1) >>= fun x => Motion.nearest (x * Float.ofInt total)) = .error f →
    Hazard source f
  /-- A sequence with something that is no number, or without weight. -/
  | sequence {part : String} {f : Failure} : part.toList <:+: source.toList →
    (Motion.segmentsOf part >>= Motion.raiseSegments) = .error f → Hazard source f
  /-- An offset with something that is no number. -/
  | offset {part : String} {f : Failure} : part.toList <:+: source.toList →
    Route.slideEffect part = .error f → Hazard source f
  /-- A number without a whole part. -/
  | priority {part : String} {x y : Float} : part.toList <:+: source.toList →
    numeralValue part = .ok (.float y) → x = y ∨ x = -y → truncate? x = none →
      Hazard source .tooLarge

/-- A failure with a place, or for a hazard. -/
def Fault (source : String) (f : Failure) : Prop := Placed f ∨ Hazard source f

theorem Ends.fault {α : Type} {x : Attempt α} {P : α → Prop} (h : Ends x P Placed)
    (source : String) :
    Ends x P (Fault source) :=
  h.imp (fun _ => id) fun _ => .inl

theorem ends_self {α : Type} {x : Attempt α} {F : Failure → Prop} (h : ∀ f, x = .error f → F f) :
    Ends x (fun a => x = .ok a) F :=
  ⟨fun _ => id, h⟩

theorem ends_filterMapM {α β : Type} {f : α → Attempt (Option β)} {xs : List α} {F : Failure → Prop}
    (h : ∀ x ∈ xs, Ends (f x) (fun _ => True) F) : Ends (xs.filterMapM f) (fun _ => True) F := by
  induction xs with
  | nil => exact .done
  | cons x xs ih =>
    obtain ⟨hx, hxs⟩ := List.forall_mem_cons.1 h
    rw [List.filterMapM_cons]
    refine Ends.bind hx fun o _ => ?_
    cases o with
    | none => exact ih hxs
    | some y => exact Ends.bind (ih hxs) fun _ _ => .done

/-! ## Pieces of the source -/

theorem infix_flatMap {α : Type} {xs : List α} {x : α} (h : x ∈ xs) (f : α → List Char) :
    f x <:+: xs.flatMap f := by
  obtain ⟨as, bs, rfl⟩ := List.append_of_mem h
  rw [List.flatMap_append, List.flatMap_cons]
  exact List.infix_append' _ _ _

section Pieces

variable {source : String} {s : Source} (hs : s.Cut source)

include hs

theorem infix_spelling {ts : List Token} (h : ts <:+: s.tokens) :
    ts.flatMap Token.spelling <:+: source.toList := by
  obtain ⟨tail, htail⟩ := hs.spelling
  obtain ⟨as, bs, hts⟩ := h
  rw [htail, ← hts, List.flatMap_append, List.flatMap_append, List.append_assoc]
  exact List.infix_append _ _ _

theorem infix_all : s.all.tokens <:+: s.tokens := by
  have h : s.all.tokens = s.tokens := hs.tokensOf_trees
  exact h ▸ List.infix_rfl

theorem infix_text {r : Range} (h : r.tokens <:+: s.tokens) : r.text.toList <:+: source.toList := by
  refine List.IsInfix.trans ?_ (infix_spelling hs h)
  change (TokenTree.textOfTokens r.tokens).toList <:+: _
  cases r.tokens with
  | nil => exact List.nil_infix
  | cons t ts =>
    rw [toList_textOfTokens_cons, List.flatMap_cons, Token.spelling, List.append_assoc]
    exact (List.suffix_append _ _).isInfix

theorem infix_token {t : Token} (h : t ∈ s.tokens) : t.spelling <:+: source.toList :=
  (infix_flatMap h Token.spelling).trans (infix_spelling hs List.infix_rfl)

theorem infix_token_text {t : Token} (h : t ∈ s.tokens) : t.text.toList <:+: source.toList :=
  (List.suffix_append t.gap.toList _).isInfix.trans (infix_token hs h)

theorem infix_comment {t : Token} (h : t ∈ s.tokens) {l : Lexeme} (hl : l ∈ t.comments) :
    l.text.toList <:+: source.toList := by
  have hgap : t.comments.flatMap Lexeme.spelling <:+: t.spelling := by
    rw [Token.spelling, gap_eq, List.append_assoc]
    exact (List.prefix_append _ _).isInfix
  have hcomment : l.text.toList <:+: l.spelling := (List.suffix_append _ _).isInfix
  exact hcomment.trans ((infix_flatMap hl Lexeme.spelling).trans (hgap.trans (infix_token hs h)))

theorem infix_sliced_text {e : Expr} (h : e.Sliced s.tokens) : e.text.toList <:+: source.toList :=
  infix_text hs h.range

/-- Reading an expression of the source fails only with a place. -/
theorem ends_range_expr {r : Range} (h : r.tokens <:+: s.tokens) :
    Ends r.expr (Expr.Sliced s.tokens) (Fault source) :=
  Ends.fault (ends_expr hs.numeral h) source

end Pieces

/-! ## Motion -/

/-- Arguments whose parts are runs of tokens. -/
def SlicedArgs (ts : List Token) (args : List (Option String × Expr)) : Prop :=
  ∀ a ∈ args, a.2.Sliced ts

theorem SlicedArgs.named {ts : List Token} {args : List (Option String × Expr)}
    (h : SlicedArgs ts args) {name : String} {e : Expr} (he : Expr.named? args name = some e) :
    e.Sliced ts := by
  unfold Expr.named? at he
  obtain ⟨a, ha, rfl⟩ := Option.map_eq_some_iff.1 he
  exact h a (List.mem_of_find?_eq_some ha)

theorem infix_inner? {c : Motion.Carrier} {source inner : String}
    (h : c.inner? source = some inner) :
    inner.toList <:+: source.toList := by
  unfold Motion.Carrier.inner? at h
  split at h
  · cases h
  · next rest hrest =>
    split at h
    · cases h
    · next middle hmiddle =>
      split_ifs at h
      cases h
      have hsource := dropHead?_eq_some_iff.1 hrest
      have hreverse := dropHead?_eq_some_iff.1 hmiddle
      rw [trim, String.toList_ofList, String.toList_ofList]
      refine (infix_trimChars _).trans ?_
      rw [← List.reverse_infix, List.reverse_reverse]
      have hmiddle : middle <:+: rest.reverse := by
        rw [hreverse]
        exact (List.suffix_append _ _).isInfix
      refine hmiddle.trans ?_
      rw [ List.reverse_infix, hsource]
      exact (List.suffix_append _ _).isInfix

section Motion

variable {source : String} {s : Source} (hs : s.Cut source) {args : List (Option String × Expr)}
  (hargs : SlicedArgs s.tokens args)

include hs hargs

theorem ends_timingOf (comments : List String) :
    Ends (Motion.timingOf args comments) (fun _ => True) (Fault source) := by
  unfold Motion.timingOf
  dsimp only
  split
  · exact .done
  · next curve hcurve =>
    split
    · next m hm =>
      have hpart := infix_sliced_text hs (hargs.named hcurve)
      have hread (f : Failure) (total : Int) (hf : Motion.readDouble (m.get 1) = .error f) :
          (Motion.readDouble (m.get 1) >>= fun x => Motion.nearest (x * Float.ofInt total)) =
            .error f := by
        rw [hf]
        rfl
      refine Ends.bind (ends_self fun f hf => ?_) fun x hx => ?_
      · exact .inr (.interval hpart hm (hread f 0 hf))
      · refine Ends.bind (ends_self fun f hf => ?_) fun delay _ => .done
        exact .inr (.interval hpart hm (by rw [hx]; exact hf))
    · exact .done

theorem ends_carrier_read (c : Motion.Carrier) (valueName : String)
    (tween : List (Option String × Expr)) :
    Ends (c.read valueName args tween) (fun _ => True) (Fault source) := by
  unfold Motion.Carrier.read
  split
  · exact .done
  · next inner hinner =>
    obtain ⟨e, he, hinner⟩ := Option.bind_eq_some_iff.1 hinner
    have hpart := (infix_inner? hinner).trans (infix_sliced_text hs (hargs.named he))
    dsimp only
    split_ifs
    · exact .done
    · exact .done
    · exact .done
    · refine Ends.bind (ends_self fun f hf => ?_) fun segments hsegments => ?_
      · exact .inr (.sequence hpart (by rw [hf]; rfl))
      · refine Ends.bind (ends_self fun f hf => ?_) fun frames _ => ?_
        · exact .inr (.sequence hpart (by rw [hsegments]; exact hf))
        · split_ifs <;> exact .done
    · exact .done

theorem ends_firstReading (valueName callee : String) (tween : List (Option String × Expr))
    (carriers : List Motion.Carrier) :
    Ends (Motion.firstReading valueName callee args tween carriers) (fun _ => True)
      (Fault source) := by
  induction carriers with
  | nil => exact .done
  | cons c cs ih =>
    unfold Motion.firstReading
    split_ifs
    · exact ih
    · refine Ends.bind (ends_carrier_read hs hargs c valueName tween) fun r _ => ?_
      cases r with
      | passed => exact ih
      | unreadable => exact .done
      | tween t => exact .done

theorem ends_builderTween : Ends (Motion.builderTween args) (fun _ => True) (Fault source) := by
  unfold Motion.builderTween
  split
  · next hbuilder _ =>
    cases hargs.named hbuilder with
    | closure _ hbody =>
      cases hbody _ rfl with
      | call _ hbody _ => exact ends_firstReading hs hbody _ _ _ _
  · exact .done

theorem ends_add (c : Motion.Collected) (callee : String) (comments : List String) :
    Ends (c.add callee args comments) (fun _ => True) (Fault source) := by
  unfold Motion.Collected.add
  have htimed (ts : List Motion.Tween) : Ends (do
      let timing ← Motion.timingOf args comments
      return some { c with tweens := c.tweens ++ ts, timing := c.timing.or timing }) (fun _ => True)
        (Fault source) :=
    Ends.bind (ends_timingOf hs hargs comments) fun timing _ => .done
  split_ifs
  · exact .done
  · refine Ends.bind ((ends_builderTween hs hargs).map (Q := fun _ => True) fun _ _ => trivial)
      fun tweens _ => ?_
    cases tweens with
    | none => exact .done
    | some ts => exact htimed ts
  · rw [pure_bind]
    cases Motion.implicitTweens callee args with
    | none => exact .done
    | some ts => exact htimed ts

end Motion

section Wrappers

variable {source : String} {s : Source} (hs : s.Cut source)

include hs

theorem ends_followWrappers (fuel : Nat) (c : Motion.Collected) {e : Expr}
    (he : e.Sliced s.tokens) :
    Ends (Motion.followWrappers fuel c e) (fun p => ∀ e ∈ p.2, e.Sliced s.tokens)
      (Fault source) := by
  induction fuel generalizing c e with
  | zero =>
    refine .ok ?_
    rintro _ ⟨⟩
    exact he
  | succ fuel ih =>
    have hstop (c : Motion.Collected) : Ends (.ok (c, some e))
        (fun p => ∀ e ∈ p.2, e.Sliced s.tokens)
        (Fault source) := by
      refine .ok ?_
      rintro _ ⟨⟩
      exact he
    unfold Motion.followWrappers
    cases he with
    | call _ hargs _ =>
      dsimp only
      split_ifs
      · exact hstop c
      · refine Ends.bind (ends_add hs hargs c _ _) fun added _ => ?_
        cases added with
        | none => exact hstop c
        | some c' =>
          dsimp only
          split
          · next child hchild => exact ih c' (SlicedArgs.named hargs hchild)
          · exact .ok nofun
    | _ => exact hstop c

/-- Collapsing wrappers gives a part of the source, or fails for a hazard. -/
theorem ends_ofWrappers {e : Expr} (he : e.Sliced s.tokens) :
    Ends (Motion.ofWrappers e) (fun o => ∀ m ∈ o, ∀ child ∈ m.child, child.Sliced s.tokens)
      (Fault source) := by
  unfold Motion.ofWrappers
  cases he with
  | call hr hargs hcomments =>
    dsimp only
    split_ifs
    · exact .ok nofun
    · refine Ends.bind (ends_add hs hargs _ _ _) fun added _ => ?_
      cases added with
      | none => exact .ok nofun
      | some c =>
        dsimp only
        split
        · refine .ok ?_
          rintro _ ⟨⟩
          exact nofun
        · next child hchild =>
          refine Ends.bind (ends_followWrappers hs _ c (SlicedArgs.named hargs hchild))
            fun p hp => ?_
          refine .ok ?_
          rintro _ ⟨⟩
          exact hp
  | _ => exact .ok nofun

end Wrappers

/-! ## Routers -/

section Routers

variable {source : String} {s : Source} (hs : s.Cut source)

include hs

theorem ends_pageTransition (callee : String) {args : List (Option String × Expr)}
    (hargs : SlicedArgs s.tokens args) :
    Ends (Route.pageTransition callee args) (fun _ => True) (Fault source) := by
  unfold Route.pageTransition
  split_ifs
  · exact .done
  · split
    · exact .done
    · next builder hbuilder =>
      have hpart := infix_sliced_text hs (hargs.named hbuilder)
      dsimp only
      split_ifs
      · exact .done
      · exact .done
      · exact Ends.bind (ends_self fun f hf => .inr (.offset hpart hf)) fun effect _ => .done
      · exact .done

omit hs in
theorem slicedArgs_of_mem_callsOf {callee : String} {es : List Expr}
    (hes : ∀ e ∈ es, e.Sliced s.tokens) {args : List (Option String × Expr)}
    (h : args ∈ Route.callsOf callee es) :
    SlicedArgs s.tokens args := by
  unfold Route.callsOf at h
  obtain ⟨e, he, heq⟩ := List.mem_filterMap.1 h
  split at heq
  · split_ifs at heq
    cases heq
    cases hes _ he with
    | call _ hargs _ => exact hargs
  · cases heq

theorem ends_goRoute (fuel : Nat) :
    (∀ parent args, SlicedArgs s.tokens args →
      Ends (Route.goRoute fuel parent args) (fun _ => True) (Fault source)) ∧
    ∀ parent calls, (∀ args ∈ calls, SlicedArgs s.tokens args) →
      Ends (Route.goRoutes fuel parent calls) (fun _ => True) (Fault source) := by
  induction fuel with
  | zero => exact ⟨fun _ _ _ => .done, fun _ _ _ => .done⟩
  | succ fuel ih =>
    obtain ⟨ihr, ihrs⟩ := ih
    constructor
    · intro parent args hargs
      unfold Route.goRoute
      dsimp only
      split
      case' h_2 page _ _ hpage _ =>
        have hchild : SlicedArgs s.tokens page := by
          cases hargs.named hpage with
          | closure _ hbody =>
            cases hbody _ rfl with
            | call _ hchild _ => exact hchild
        refine Ends.bind (ends_pageTransition hs _ hchild) fun transition _ => ?_
        rw [pure_bind]
      -- whatever the page is, the routes below are read in the same way
      all_goals
        split
        · next items hroutes =>
          cases hargs.named hroutes with
          | list _ hitems =>
            refine Ends.bind (ihrs _ _ fun args => ?_) fun _ _ => .done
            exact slicedArgs_of_mem_callsOf hitems
        · exact .done
    · intro parent calls hcalls
      cases calls with
      | nil => exact .done
      | cons args calls =>
        obtain ⟨hargs, hcalls⟩ := List.forall_mem_cons.1 hcalls
        refine Ends.bind (ihr parent args hargs) fun r _ => ?_
        exact Ends.bind (ihrs parent calls hcalls) fun rs _ => .done

omit hs in
theorem written_of_constant? {e : Expr} (he : e.Sliced s.tokens) {v : Value}
    (h : constant? e = some v) :
    Written s.tokens v := by
  cases he with
  | literal _ hv =>
    rw [constant?, Option.some.injEq] at h
    exact h ▸ hv
  | string =>
    rw [constant?] at h
    split_ifs at h
    cases h
    intro x hx
    cases hx
  | list =>
    rw [constant?, Option.map_eq_some_iff] at h
    obtain ⟨vs, -, rfl⟩ := h
    intro x hx
    cases hx
  | map =>
    rw [constant?, Option.map_eq_some_iff] at h
    obtain ⟨es, -, rfl⟩ := h
    intro x hx
    cases hx
  | call => cases h
  | closure => cases h
  | other => cases h

theorem ends_guardOfCall {args : List (Option String × Expr)} (hargs : SlicedArgs s.tokens args) :
    Ends (Route.guardOfCall args) (fun _ => True) (Fault source) := by
  unfold Route.guardOfCall Route.Guard.ofFields
  dsimp only
  split
  · generalize hfields : Assoc.ofPairs _ = fields
    refine Ends.bind (ends_self fun f hf => ?_) fun _ _ => .done
    unfold Route.wholeOr at hf
    split at hf
    · cases hf
    · cases hf
    · next x hx =>
      split at hf
      · cases hf
      · next hnone =>
        cases hf
        rw [← hfields] at hx
        have hmem := Assoc.mem_of_mem_ofPairs (Assoc.mem_of_get? hx)
        obtain ⟨⟨name, e⟩, ha, heq⟩ := List.mem_filterMap.1 hmem
        dsimp only at heq
        split at heq
        · cases heq
        · cases heq
        · simp at heq
        · obtain ⟨v, hv, hpair⟩ := Option.map_eq_some_iff.1 heq
          cases hpair
          obtain ⟨t, ht, y, hy, hxy⟩ := written_of_constant? (hargs _ ha) hv x rfl
          exact .inr (.priority (infix_token_text hs ht) hy hxy hnone)
    · cases hf
  · exact .done

theorem ends_guardsOfMember {m : Member} (hm : m.Sliced s.tokens) :
    Ends (Route.guardsOfMember m) (fun _ => True) (Fault source) := by
  unfold Route.guardsOfMember
  split
  · exact .done
  · next r hr =>
    refine Ends.bind (ends_range_expr hs (hm.initializer r hr)) fun e he => ?_
    cases he with
    | list _ hitems =>
      exact ends_filterMapM fun args hargs =>
        ends_guardOfCall hs (slicedArgs_of_mem_callsOf hitems hargs)
    | _ => exact .done

theorem ends_resolveRouter {top : Assoc Member} (htop : ∀ m ∈ top, m.2.Sliced s.tokens)
    {o : Option Expr} (ho : ∀ e ∈ o, e.Sliced s.tokens) :
    Ends (Route.resolveRouter top o) (fun p => ∀ e ∈ p.1, e.Sliced s.tokens) (Fault source) := by
  unfold Route.resolveRouter
  split
  · exact .ok nofun
  · exact .ok ho
  · next e _ =>
    split
    · exact .ok ho
    · next m hm =>
      split
      · exact .ok ho
      · next r hr =>
        have hsliced := htop _ (Assoc.mem_of_get? hm)
        refine Ends.bind (ends_range_expr hs (hsliced.initializer r hr)) fun e' he' => ?_
        cases he' with
        | call hr hargs hcomments =>
          refine .ok ?_
          rintro _ ⟨⟩
          exact .call hr hargs hcomments
        | _ => exact .ok ho

/-- The routes of a router that was found, or else others. -/
theorem ends_found {router : Option Expr} (hrouter : ∀ e ∈ router, e.Sliced s.tokens)
    (others : List Route × String) (g : List Route × String → Route.Reading) :
    Ends (match router with
      | some (.call r "GoRouter" _ inner _) =>
        match Expr.named? inner "routes" with
        | some (.list _ items) => do
          let routes ← Route.goRoutes (2 * TokenTree.sizeOf' r.trees + 2) "/"
            (Route.callsOf "GoRoute" items)
          let found ← pure
            (routes, Route.orRoot (Route.plainString? (Expr.named? inner "initialLocation")))
          pure (g found)
        | _ => do
          let found ← pure
            ([], Route.orRoot (Route.plainString? (Expr.named? inner "initialLocation")))
          pure (g found)
      | _ => do
        let found ← pure others
        pure (g found)) (fun _ => True) (Fault source) := by
  split
  · cases hrouter _ rfl with
    | call _ hinner _ =>
      split
      · next hroutes =>
        cases SlicedArgs.named hinner hroutes with
        | list _ hitems =>
          refine Ends.bind ((ends_goRoute hs _).2 _ _ fun args => ?_) fun _ _ => .done
          exact slicedArgs_of_mem_callsOf hitems
      · exact .done
  · exact .done

theorem ends_ofWidgetCall {declarations : List Member}
    (hdecl : ∀ m ∈ declarations, m.Sliced s.tokens) {call : Expr} (hcall : call.Sliced s.tokens)
    (callee : String) {args : List (Option String × Expr)} (hargs : SlicedArgs s.tokens args) :
    Ends (Route.ofWidgetCall call callee args declarations) (fun _ => True) (Fault source) := by
  have htop : ∀ m ∈ Route.membersByName declarations, m.2.Sliced s.tokens := by
    intro m hm
    obtain ⟨d, hd, rfl⟩ := List.mem_map.1 (Assoc.mem_of_mem_ofPairs hm)
    exact hdecl d hd
  have hrouter :
      ∀ e ∈ (if callee == "GoRouter" then some call else Expr.named? args "routerConfig"),
      e.Sliced s.tokens := by
    intro e he
    split_ifs at he
    · cases he
      exact hcall
    · exact hargs.named he
  have hguards {m : Member}
      (hm : (Route.membersByName declarations).get? Route.guardsVariable = some m) :
      Ends ((Route.guardsOfMember m).map fun gs => (gs, [Route.guardsVariable])) (fun _ => True)
        (Fault source) :=
    (ends_guardsOfMember hs (htop _ (Assoc.mem_of_get? hm))).map fun _ _ => trivial
  unfold Route.ofWidgetCall
  dsimp only
  split
  · next m hm =>
    refine Ends.bind (hguards hm) fun guards _ => ?_
    refine Ends.bind (ends_resolveRouter hs htop hrouter) fun router hfound => ?_
    exact ends_found hs hfound _ _
  · refine Ends.bind (ends_resolveRouter hs htop hrouter) fun router hfound => ?_
    exact ends_found hs hfound _ _

end Routers

end WidgetBridge.Reading
