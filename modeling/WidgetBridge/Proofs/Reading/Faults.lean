import WidgetBridge.Conversion
import WidgetBridge.Proofs.Mapping.Backward
import WidgetBridge.Proofs.Reading.Hazards
import WidgetBridge.Proofs.State.Calls
import WidgetBridge.Proofs.Writing.Draft

/-!
# What reading a widget source can end in

`readSource_widget` says what comes of every widget source: a document, or a report with one finding
and its place, or a failure for a hazard of the source.  Five kinds of failures are raised this way
(`Hazard.mem_raised`).
-/

namespace WidgetBridge.Reading

open WidgetBridge.Text WidgetBridge.Number WidgetBridge.WidgetGrammar
open WidgetBridge.Writing (ErrsAs errsAs_ok errsAs_error errsAs_mapM)

/-! ## State -/

section State

variable {source : String} {s : Source} (hs : s.Cut source)

include hs

theorem ends_mutatedNames {body : Range} (h : body.tokens <:+: s.tokens) :
    Ends (State.mutatedNames body) (fun _ => True) (Fault source) := by
  unfold State.mutatedNames
  refine Ends.bind (ends_filterMapM fun r hr => ?_) fun closures _ => .done
  split_ifs
  · exact .done
  · exact (ends_range_expr hs ((State.tokens_infix_of_mem_argumentsOf hr).trans h)).map
      fun _ _ => trivial

theorem ends_memberCall {m : Member} (hm : m.Sliced s.tokens) :
    Ends (State.memberCall m) (fun _ => True) (Fault source) := by
  unfold State.memberCall
  split
  · next r harrow => exact (ends_range_expr hs (hm.arrow r harrow)).map fun _ _ => trivial
  · next body _ hbody =>
    unfold State.singleCall
    split
    · next r hr =>
      dsimp only
      split_ifs
      · exact .done
      · have hmem : r ∈ body.statements := by simp [hr]
        have hpart := (tokens_infix_of_mem_statements hmem).trans (hm.body body hbody)
        exact (ends_range_expr hs ((infix_withoutSemicolon r).trans hpart)).map fun _ _ => trivial
    · exact .done
  · exact .done

theorem ends_liftFields (mutated : List String) (bindings : Assoc State.Binding) {ms : List Member}
    (hms : ∀ m ∈ ms, m.Sliced s.tokens) :
    Ends (State.liftFields mutated bindings ms) (fun p => ∀ m ∈ p.2, m.Sliced s.tokens)
      (Fault source) := by
  induction ms generalizing bindings with
  | nil => exact .ok (List.forall_mem_nil _)
  | cons m ms ih =>
    obtain ⟨hm, hms⟩ := List.forall_mem_cons.1 hms
    have hbinding : Ends (State.bindingOfField m) (fun _ => True) (Fault source) := by
      unfold State.bindingOfField
      split
      · next r hr =>
        refine Ends.bind ((ends_range_expr hs (hm.initializer r hr)).map (Q := fun _ => True)
          fun _ _ => trivial) fun _ _ => .done
      · exact .done
    unfold State.liftFields
    split_ifs
    · exact Ends.bind hbinding fun b _ => ih _ hms
    · exact Ends.bind (ih bindings hms) fun p hp => .ok (List.forall_mem_cons.2 ⟨hm, hp⟩)

theorem ends_liftMethod (bindings : Assoc State.Binding) {m : Member} (hm : m.Sliced s.tokens) :
    Ends (State.liftMethod bindings m) (fun _ => True) (Fault source) := by
  have hbody : Ends (State.setStateBody m) (fun _ => True) (Fault source) := by
    unfold State.setStateBody
    refine Ends.bind (ends_memberCall hs hm) fun call _ => ?_
    split <;> exact .done
  unfold State.liftMethod
  refine Ends.bind hbody fun statements _ => ?_
  dsimp only
  split
  · exact .done
  · split_ifs
    · exact .done
    · split <;> exact .done

theorem ends_liftMethods (bindings : Assoc State.Binding) {ms : List Member}
    (hms : ∀ m ∈ ms, m.Sliced s.tokens) :
    Ends (State.liftMethods bindings ms) (fun _ => True) (Fault source) := by
  induction ms generalizing bindings with
  | nil => exact .done
  | cons m ms ih =>
    obtain ⟨hm, hms⟩ := List.forall_mem_cons.1 hms
    unfold State.liftMethods
    split_ifs
    · exact Ends.bind (ih bindings hms) fun _ _ => .done
    · refine Ends.bind (ends_liftMethod hs bindings hm) fun lifted _ => ?_
      cases lifted with
      | some bs => exact ih bs hms
      | none => exact Ends.bind (ih bindings hms) fun _ _ => .done

theorem ends_providerParts {m : Member} (hm : m.Sliced s.tokens) :
    Ends (State.providerParts m) (fun _ => True) (Fault source) := by
  unfold State.providerParts
  split
  · exact .done
  · next r hr =>
    refine Ends.bind (ends_range_expr hs (hm.initializer r hr)) fun e _ => ?_
    cases e with
    | call range callee typeArgs args comments =>
      dsimp only
      by_cases hform : State.Form.stateProvider.matchesStart
        (Expr.call range callee typeArgs args comments).text
      · rw [if_neg (by simp [hform])]
        split <;> exact .done
      · rw [if_pos (by simp [hform])]
        exact .done
    | _ => exact .done

theorem ends_addAll (name : String) (p : State.CubitParts) {ms : List Member}
    (hms : ∀ m ∈ ms, m.Sliced s.tokens) :
    Ends (State.CubitParts.addAll name p ms) (fun _ => True) (Fault source) := by
  have hadd (p : State.CubitParts) {m : Member} (hm : m.Sliced s.tokens) :
      Ends (p.add name m) (fun _ => True) (Fault source) := by
    unfold State.CubitParts.add
    dsimp only
    split_ifs
    · split
      · exact .done
      · next r rs hsuper =>
        have hmem : r ∈ State.argumentsOf "super" m.range.trees := by simp [hsuper]
        split_ifs
        · exact .done
        · refine Ends.bind (ends_range_expr hs ?_) fun _ _ => .done
          exact (State.tokens_infix_of_mem_argumentsOf hmem).trans hm.range
    · exact .done
    · refine Ends.bind (ends_memberCall hs hm) fun call _ => ?_
      split
      · split
        · exact .done
        · split_ifs <;> exact .done
        · exact .done
      · exact .done
  induction ms generalizing p with
  | nil => exact .done
  | cons m ms ih =>
    obtain ⟨hm, hms⟩ := List.forall_mem_cons.1 hms
    unfold State.CubitParts.addAll
    refine Ends.bind (hadd p hm) fun added _ => ?_
    cases added with
    | none => exact .done
    | some p' => exact ih p' hms

end State

/-- The last step of watching a statement: an inherited value, or a value that is watched by its
type. -/
def watchedContext (statement : String) (a b : Pattern.Match → Option State.WidgetScan) :
    Attempt (Option State.WidgetScan) :=
  match State.Form.inherited.matchStart? statement with
  | some m => pure (a m)
  | none =>
    match State.Form.watchType.matchStart? statement with
    | some m => pure (b m)
    | none => pure none

theorem ends_watchedContext (statement : String) (a b : Pattern.Match → Option State.WidgetScan)
    (F : Failure → Prop) :
    Ends (watchedContext statement a b) (fun _ => True) F := by
  unfold watchedContext
  split
  · exact .done
  · split <;> exact .done

/-- The step before: a provider, if one is watched. -/
def watchedProvider (top : Assoc Member) (statement : String)
    (g : Pattern.Match → Option (Option String × PropValue) → Option State.WidgetScan)
    (next : Attempt (Option State.WidgetScan)) : Attempt (Option State.WidgetScan) :=
  match State.Form.watchProvider.matchStart? statement with
  | some m =>
    match top.get? (m.get 2) with
    | some p => do
      match ← (State.providerParts p).map (g m) with
      | some w' => pure (some w')
      | _ => next
    | none => next
  | none => next

section Declarations

variable {source : String} {s : Source} (hs : s.Cut source) (hread : Source.read source = .ok s)
  {declarations : List Member} (hmembers : s.members = .ok declarations)
  (hdecl : ∀ m ∈ declarations, m.Sliced s.tokens)

include hs hread hmembers hdecl

omit hs hdecl in
theorem ends_superTypeArgs {m : Member} (hm : m ∈ declarations) :
    Ends m.superTypeArgs (fun _ => True) (Fault source) :=
  Ends.true (ends_self fun _ hf => .inr (.superclass hread hmembers hm hf))

theorem ends_bindingOfCubit {c : Member} (hc : c ∈ declarations) (name : String) :
    Ends (State.bindingOfCubit s c name) (fun _ => True) (Fault source) := by
  unfold State.bindingOfCubit
  split
  · next body hbody =>
    generalize hname : c.superName = superName
    by_cases hsuper : superName = "Cubit"
    · -- only a class has a superclass, and its body is followed by something
      have hclass : c.kind = .classLike := by
        by_contra hkind
        rw [Member.superName, (hdecl c hc).superclass hkind, hsuper] at hname
        exact absurd hname (by decide)
      have hfollow := (hdecl c hc).follow hclass body hbody
      rw [if_neg (by simp [hsuper])]
      refine Ends.bind ((ends_membersIn hs ((hdecl c hc).body body hbody) hfollow).imp (fun _ => id)
        fun _ => False.elim) fun ms hms => ?_
      refine Ends.bind (ends_addAll hs name {} hms) fun parts _ => ?_
      cases parts with
      | none => exact .done
      | some p => exact Ends.bind (ends_superTypeArgs hread hmembers hc) fun _ _ => .done
    · rw [if_pos (by simp [hsuper])]
      exact .done
  · exact .done

omit hread hmembers hdecl in
theorem ends_watchedProvider {top : Assoc Member}
    (htop : ∀ name m, top.get? name = some m → m.Sliced s.tokens) (statement : String)
    (g : Pattern.Match → Option (Option String × PropValue) → Option State.WidgetScan)
    {next : Attempt (Option State.WidgetScan)} (hnext : Ends next (fun _ => True) (Fault source)) :
    Ends (watchedProvider top statement g next) (fun _ => True) (Fault source) := by
  unfold watchedProvider
  split
  · split
    · next p hp =>
      refine Ends.bind ((ends_providerParts hs (htop _ p hp)).map (Q := fun _ => True)
        fun _ _ => trivial) fun found _ => ?_
      split
      · exact .done
      · exact hnext
    · exact hnext
  · exact hnext

theorem ends_watch (w : State.WidgetScan) (statement : String) :
    Ends (w.watch s (Assoc.ofPairs (declarations.map fun m => (m.name, m))) statement)
      (fun _ => True)
      (Fault source) := by
  generalize htop : Assoc.ofPairs (declarations.map fun m => (m.name, m)) = top
  have hmem {name : String} {m : Member} (h : top.get? name = some m) : m ∈ declarations := by
    rw [← htop] at h
    obtain ⟨d, hd, heq⟩ := List.mem_map.1 (Assoc.mem_of_mem_ofPairs (Assoc.mem_of_get? h))
    cases heq
    exact hd
  -- each of the three steps may find the state; otherwise the next one looks for it
  have hprovider := ends_watchedProvider hs fun name m h => hdecl m (hmem h)
  unfold State.WidgetScan.watch
  dsimp only
  split
  · split
    · next c hc =>
      refine Ends.bind
        ((ends_bindingOfCubit hs hread hmembers hdecl (hmem hc) _).map (Q := fun _ => True)
        fun _ _ => trivial) fun found _ => ?_
      split
      · exact .done
      · exact hprovider _ _ (ends_watchedContext _ _ _ _)
    · exact hprovider _ _ (ends_watchedContext _ _ _ _)
  · exact hprovider _ _ (ends_watchedContext _ _ _ _)

theorem ends_watchAll (w : State.WidgetScan) (statements : List Range) :
    Ends (w.watchAll s (Assoc.ofPairs (declarations.map fun m => (m.name, m))) statements)
      (fun _ => True)
      (Fault source) := by
  induction statements generalizing w with
  | nil => exact .done
  | cons r rs ih =>
    unfold State.WidgetScan.watchAll
    refine Ends.bind (ends_watch hs hread hmembers hdecl w r.text) fun found _ => ?_
    cases found with
    | some w' => exact ih w'
    | none => exact Ends.bind (ih w) fun _ _ => .done

/-- Lifting state out of a widget fails with a place or for a hazard. -/
theorem ends_scanWidget {stateClass : Option Member} (hclass : ∀ c ∈ stateClass, c ∈ declarations)
    {ms : List Member} (hms : ∀ m ∈ ms, m.Sliced s.tokens) (statements : List Range) :
    Ends (State.scanWidget s stateClass ms statements declarations) (fun _ => True)
      (Fault source) := by
  have hrest (mutated : List String) : Ends (do
      let fields ← State.liftFields mutated [] ms
      let methods ← State.liftMethods fields.1 fields.2
      let start : State.WidgetScan := { bindings := methods.1.map (·.2), members := methods.2 }
      let found ← start.watchAll s
        (Assoc.ofPairs (declarations.map fun m => (m.name, m))) statements
      return found.1.foldAll found.2) (fun _ => True) (Fault source) := by
    refine Ends.bind (ends_liftFields hs mutated [] hms) fun fields hfields => ?_
    refine Ends.bind (ends_liftMethods hs _ hfields) fun methods _ => ?_
    exact Ends.bind (ends_watchAll hs hread hmembers hdecl _ statements) fun _ _ => .done
  unfold State.scanWidget
  dsimp only
  split
  · next body hbody =>
    obtain ⟨c, hc, hbody⟩ := Option.bind_eq_some_iff.1 hbody
    have hpart := (hdecl c (hclass c hc)).body body hbody
    exact Ends.bind (ends_mutatedNames hs hpart) fun mutated _ => hrest mutated
  · exact hrest []

end Declarations

/-! ## Lowering -/

/-- A step of reading all of whose failures have a property. -/
def FailsAs {α : Type} (r : Reader α) (F : Failure → Prop) : Prop :=
  ∀ notes, Ends (r.run notes) (fun _ => True) F

section Steps

variable {α β : Type} {F : Failure → Prop}

theorem failsAs_pure (a : α) : FailsAs (pure a) F := fun _ => .done

theorem FailsAs.bind {r : Reader α} (hr : FailsAs r F) {f : α → Reader β}
    (hf : ∀ a, FailsAs (f a) F) :
    FailsAs (r >>= f) F := by
  intro notes
  rw [StateT.run_bind]
  exact Ends.bind (hr notes) fun p _ => hf p.1 p.2

theorem failsAs_attempt_bind {x : Attempt α} {P : α → Prop} (hx : Ends x P F) {f : α → Reader β}
    (hf : ∀ a, P a → FailsAs (f a) F) : FailsAs ((x : Reader α) >>= f) F := by
  intro notes
  cases x with
  | ok a => exact hf a (hx.of_ok a rfl) notes
  | error e => exact .error (hx.of_error e rfl)

theorem failsAs_modify (g : Notes → Notes) : FailsAs (modify g) F := fun _ => .done

theorem failsAs_note (issues : List Issue) : FailsAs (note issues) F := failsAs_modify _

end Steps

theorem failsAs_putProp {F : Failure → Prop} (entry : Mapping.Entry) (path target : String)
    (v : PropValue) (props : Props) : FailsAs (putProp entry path target v props) F := by
  obtain ⟨r, hr⟩ := Mapping.exists_carryProp_backward entry target v path
  unfold putProp
  refine failsAs_attempt_bind (P := fun _ => True) (by rw [hr]; exact .done) fun p _ => ?_
  exact (failsAs_note _).bind fun _ => failsAs_pure _

theorem failsAs_putGroup {F : Failure → Prop} (entry : Mapping.Entry) (path group : String)
    (args : Args) (props : Props) : FailsAs (putGroup entry path group args props) F := by
  induction args generalizing props with
  | nil => exact failsAs_pure _
  | cons a args ih =>
    obtain ⟨name, e⟩ := a
    cases name with
    | none => exact ih props
    | some name => exact (failsAs_putProp _ _ _ _ _).bind fun props => ih props

theorem ends_placeholderOf {source part : String} (h : part.toList <:+: source.toList) :
    Ends (placeholderOf part) (fun _ => True) (Fault source) := by
  have hread : Ends (Source.read part >>= fun s => s.all.expr) (fun _ => True)
      fun f => Placed f ∨ LexFault part.toList f := by
    refine Ends.bind (ends_read part) fun s hs => ?_
    exact (ends_expr hs.numeral (infix_all hs)).imp (fun _ _ => trivial) fun _ => .inl
  unfold placeholderOf
  split
  · exact .done
  · dsimp only
    split
    · exact .done
    · exact .done
    · exact .done
    · next f hplaced hf =>
      rw [hf] at hread
      rcases hread.of_error f rfl with ⟨message, place, rfl⟩ | hlex
      · exact absurd rfl (hplaced message place)
      · exact .error (.inr (.lexeme (hlex.mono h)))

theorem ends_placeholder? {source : String} {comments : List String}
    (h : ∀ c ∈ comments, c.toList <:+: source.toList) :
    Ends (placeholder? comments) (fun _ => True) (Fault source) := by
  induction comments with
  | nil => exact .done
  | cons c cs ih =>
    obtain ⟨hc, hcs⟩ := List.forall_mem_cons.1 h
    unfold placeholder?
    split
    · next m hm =>
      exact (ends_placeholderOf ((Pattern.infix_get hm 1).trans hc)).map fun _ _ => trivial
    · exact ih hcs

/-! ### Parts of calls -/

theorem sliced_plainColumn? {ts : List Token} {e children : Expr} (he : e.Sliced ts)
    (h : plainColumn? e = some children) : children.Sliced ts := by
  unfold plainColumn? at h
  split at h
  · cases h
    cases he with
    | call _ hargs _ => exact hargs _ List.mem_cons_self
  · cases h

theorem sliced_slotContent {ts : List Token} {entry : Mapping.Entry} {name : String} {e : Expr}
    (he : e.Sliced ts) : (slotContent entry name e).Sliced ts := by
  unfold slotContent
  split
  · next children hcolumn =>
    split_ifs
    · exact sliced_plainColumn? he hcolumn
    · exact he
  · exact he

theorem slicedArgs_layoutCall? {ts : List Token} {entry : Mapping.Entry}
    {callee name inner : String} {e : Expr} {args : Args} (he : e.Sliced ts)
    (h : layoutCall? entry callee name e = some (inner, args)) :
    SlicedArgs ts args := by
  unfold layoutCall? at h
  split at h
  · split_ifs at h
    cases h
    cases he with
    | call _ hargs _ => exact hargs
  · cases h

theorem infix_comments {source : String} {s : Source} (hs : s.Cut source) {comments : List String}
    (h : ∀ c ∈ comments, ∃ t ∈ s.tokens, ∃ l ∈ t.comments, c = l.text) :
    ∀ c ∈ comments, c.toList <:+: source.toList := by
  intro c hc
  obtain ⟨t, ht, l, hl, rfl⟩ := h c hc
  exact infix_comment hs ht hl

section Lowering

variable {source : String} {s : Source} (hs : s.Cut source) {declarations : List Member}
  (hdecl : ∀ m ∈ declarations, m.Sliced s.tokens) (table : Mapping.Table)

/-- The steps of lowering fail with a place or for a hazard. -/
structure LowersSafely (source : String) (ts : List Token) (table : Mapping.Table)
    (declarations : List Member) (fuel : Nat) : Prop where
  lower (path : String) (o : Option Expr) : (∀ e ∈ o, e.Sliced ts) →
    FailsAs (lower table declarations fuel path o) (Fault source)
  items (path : String) (index : Nat) (es : List Expr) : (∀ e ∈ es, e.Sliced ts) →
    FailsAs (lowerItems table declarations fuel path index es) (Fault source)
  call (path callee : String) (args : Args) (comments : List String) : SlicedArgs ts args →
    (∀ c ∈ comments, c.toList <:+: source.toList) →
    FailsAs (lowerCall table declarations fuel path callee args comments) (Fault source)
  slot (path : String) (o : Option Expr) : (∀ e ∈ o, e.Sliced ts) →
    FailsAs (lowerSlot table declarations fuel path o) (Fault source)
  unmapped (path : String) (index : Nat) (args : Args) : SlicedArgs ts args →
    FailsAs (lowerUnmapped table declarations fuel path index args) (Fault source)
  mapped (path : String) (entry : Mapping.Entry) (callee : String)
    (args : Args) : SlicedArgs ts args →
    FailsAs (lowerMapped table declarations fuel path entry callee args) (Fault source)
  fillAll (path : String) (entry : Mapping.Entry) (callee : String) (args : Args) (f : Filled) :
    SlicedArgs ts args →
      FailsAs (fillAll table declarations fuel path entry callee args f) (Fault source)
  fillNamed (path : String) (entry : Mapping.Entry) (callee name : String) (e : Expr) (f : Filled) :
    e.Sliced ts →
      FailsAs (fillNamed table declarations fuel path entry callee name e f) (Fault source)

include hs hdecl

theorem failsAs_lowerRouter {call : Expr} (hcall : call.Sliced s.tokens) (callee : String)
    {args : Args} (hargs : SlicedArgs s.tokens args) :
    FailsAs (lowerRouter declarations call callee args) (Fault source) := by
  unfold lowerRouter
  refine failsAs_attempt_bind (ends_ofWidgetCall hs hdecl hcall callee hargs) fun r _ => ?_
  refine (failsAs_modify _).bind fun _ => ?_
  exact (failsAs_note _).bind fun _ => failsAs_pure _

theorem LowersSafely.lower_succ (ih : LowersSafely source s.tokens table declarations fuel)
    (path : String) {o : Option Expr} (ho : ∀ e ∈ o, e.Sliced s.tokens) :
    FailsAs (Reading.lower table declarations (fuel + 1) path o) (Fault source) := by
  cases o with
  | none => exact failsAs_pure _
  | some e =>
    have he := ho e rfl
    cases he with
    | list _ hitems => exact ih.items path 0 _ hitems
    | call hr hargs hcomments =>
      have hnotes := infix_comments hs hcomments
      unfold Reading.lower
      dsimp only
      split
      · exact failsAs_pure _
      · refine failsAs_attempt_bind (ends_ofWrappers hs (ho _ rfl)) fun collapsed hchild => ?_
        cases collapsed with
        | some m =>
          refine (failsAs_note _).bind fun _ => ?_
          refine (ih.lower path m.child (hchild m rfl)).bind fun nodes => ?_
          split
          · split_ifs <;> exact failsAs_pure _
          · exact failsAs_pure _
        | none =>
          dsimp only
          split_ifs
          · exact ih.call _ _ _ _ hargs hnotes
          · refine (ih.lower path _ fun e' he' => SlicedArgs.named hargs he').bind fun nodes => ?_
            split
            · exact ih.call _ _ _ _ hargs hnotes
            · exact failsAs_pure _
          · exact failsAs_lowerRouter hs hdecl (ho _ rfl) _ hargs
    | _ => exact failsAs_pure _

omit hs hdecl

theorem LowersSafely.items_succ (ih : LowersSafely source s.tokens table declarations fuel)
    (path : String) (index : Nat) {es : List Expr} (hes : ∀ e ∈ es, e.Sliced s.tokens) :
    FailsAs (lowerItems table declarations (fuel + 1) path index es) (Fault source) := by
  cases es with
  | nil => exact failsAs_pure _
  | cons e es =>
    obtain ⟨he, hes⟩ := List.forall_mem_cons.1 hes
    refine (ih.lower _ (some e) ?_).bind fun nodes => (ih.items _ _ _ hes).bind fun _ =>
      failsAs_pure _
    rintro _ ⟨⟩
    exact he

theorem LowersSafely.call_succ (ih : LowersSafely source s.tokens table declarations fuel)
    (path callee : String) {args : Args} (hargs : SlicedArgs s.tokens args) {comments : List String}
    (hcomments : ∀ c ∈ comments, c.toList <:+: source.toList) :
    FailsAs (lowerCall table declarations (fuel + 1) path callee args comments) (Fault source) := by
  unfold lowerCall
  dsimp only
  split_ifs
  · refine failsAs_attempt_bind (ends_placeholder? hcomments) fun stated _ => ?_
    cases stated with
    | some p =>
      refine (ih.slot path _ fun e he => hargs.named he).bind fun child => ?_
      exact (ih.slot path _ fun e he => hargs.named he).bind fun children => failsAs_pure _
    | none =>
      dsimp only
      split
      · exact (ih.mapped _ _ _ _ hargs).bind fun _ => failsAs_pure _
      · exact (ih.unmapped _ _ _ hargs).bind fun _ => failsAs_pure _
  · rw [pure_bind]
    dsimp only
    split
    · exact (ih.mapped _ _ _ _ hargs).bind fun _ => failsAs_pure _
    · exact (ih.unmapped _ _ _ hargs).bind fun _ => failsAs_pure _

theorem LowersSafely.slot_succ (ih : LowersSafely source s.tokens table declarations fuel)
    (path : String) {o : Option Expr} (ho : ∀ e ∈ o, e.Sliced s.tokens) :
    FailsAs (lowerSlot table declarations (fuel + 1) path o) (Fault source) := by
  unfold lowerSlot
  refine ih.lower path _ fun e he => ?_
  split at he
  · next children hcolumn =>
    cases he
    obtain ⟨e, he, hcolumn⟩ := Option.bind_eq_some_iff.1 hcolumn
    exact sliced_plainColumn? (ho e he) hcolumn
  · exact ho e he

theorem LowersSafely.unmapped_succ (ih : LowersSafely source s.tokens table declarations fuel)
    (path : String) (index : Nat) {args : Args} (hargs : SlicedArgs s.tokens args) :
    FailsAs (lowerUnmapped table declarations (fuel + 1) path index args) (Fault source) := by
  cases args with
  | nil => exact failsAs_pure _
  | cons a args =>
    obtain ⟨name, e⟩ := a
    obtain ⟨he, htail⟩ := List.forall_mem_cons.1 hargs
    unfold lowerUnmapped
    split_ifs
    · refine (ih.lower path (some e) ?_).bind fun nodes => ?_
      · rintro _ ⟨⟩
        exact he
      · exact (ih.unmapped _ _ _ htail).bind fun _ => failsAs_pure _
    · exact (ih.unmapped _ _ _ htail).bind fun _ => failsAs_pure _

theorem LowersSafely.fillAll_succ (ih : LowersSafely source s.tokens table declarations fuel)
    (path : String) (entry : Mapping.Entry) (callee : String) {args : Args} (f : Filled)
    (hargs : SlicedArgs s.tokens args) :
    FailsAs (Reading.fillAll table declarations (fuel + 1) path entry callee args f)
      (Fault source) := by
  cases args with
  | nil => exact failsAs_pure _
  | cons a args =>
    obtain ⟨name, e⟩ := a
    obtain ⟨he, htail⟩ := List.forall_mem_cons.1 hargs
    cases name with
    | none =>
      unfold Reading.fillAll
      dsimp only
      split_ifs
      · exact ih.fillAll _ _ _ _ _ htail
      · exact (failsAs_putProp _ _ _ _ _).bind fun _ => ih.fillAll _ _ _ _ _ htail
    | some name => exact (ih.fillNamed _ _ _ _ _ _ he).bind fun _ => ih.fillAll _ _ _ _ _ htail

theorem LowersSafely.fillNamed_succ (ih : LowersSafely source s.tokens table declarations fuel)
    (path : String) (entry : Mapping.Entry) (callee name : String) {e : Expr} (f : Filled)
    (he : e.Sliced s.tokens) :
    FailsAs (Reading.fillNamed table declarations (fuel + 1) path entry callee name e f)
      (Fault source) := by
  unfold Reading.fillNamed
  split
  · split
    · next inner innerArgs hlayout =>
      refine (ih.mapped _ _ _ _ ?_).bind fun _ => failsAs_pure _
      exact slicedArgs_layoutCall? he hlayout
    · refine (ih.lower _ _ ?_).bind fun _ => failsAs_pure _
      rintro _ ⟨⟩
      exact sliced_slotContent he
  · split
    · exact failsAs_pure _
    · split
      · exact (failsAs_putGroup _ _ _ _ _).bind fun _ => failsAs_pure _
      · exact (failsAs_putProp _ _ _ _ _).bind fun _ => failsAs_pure _

include hs hdecl

theorem lowersSafely (fuel : Nat) : LowersSafely source s.tokens table declarations fuel := by
  induction fuel with
  | zero =>
    constructor
    all_goals
      intros
      exact failsAs_pure _
  | succ fuel ih =>
    exact {
      lower := fun path _ ho => ih.lower_succ hs hdecl table path ho
      items := fun path index _ hes => ih.items_succ table path index hes
      call := fun path callee _ _ hargs hcomments => ih.call_succ table path callee hargs hcomments
      slot := fun path _ ho => ih.slot_succ table path ho
      unmapped := fun path index _ hargs => ih.unmapped_succ table path index hargs
      mapped := fun path entry callee _ hargs => (ih.fillAll _ _ _ _ _ hargs).bind fun _ =>
        failsAs_pure _
      fillAll := fun path entry callee _ f hargs => ih.fillAll_succ table path entry callee f hargs
      fillNamed :=
        fun path entry callee name _ f he => ih.fillNamed_succ table path entry callee name f he }

theorem ends_lowerRoot {e : Expr} (he : e.Sliced s.tokens) :
    Ends ((lowerRoot table declarations e).run {}) (fun _ => True) (Fault source) := by
  have hlower :=
    (lowersSafely hs hdecl table (8 * TokenTree.sizeOf' e.range.trees + 8)).lower "root" (some e)
    (by rintro _ ⟨⟩; exact he) {}
  unfold lowerRoot
  rw [StateT.run_map]
  exact hlower.map fun _ _ => trivial

end Lowering

/-! ## Sources -/

section Sources

variable {source : String} {s : Source} (hs : s.Cut source) (table : Mapping.Table)

include hs in
theorem ends_widgetExpression : Ends (widgetExpression table s) (fun _ => True) (Fault source) := by
  have hnothing (place : Place) : Fault source (.malformed nothingFound place) := .inl ⟨_, _, rfl⟩
  unfold widgetExpression
  split
  · exact .error (hnothing _)
  · refine Ends.bind (ends_range_expr hs ((infix_withoutSemicolon _).trans (infix_all hs)))
      fun e he => ?_
    cases he with
    | call hr hargs hcomments =>
      refine Ends.bind (ends_lowerRoot hs (List.forall_mem_nil _) table ?_) fun _ _ => .done
      exact .call hr hargs hcomments
    | _ => exact .error (hnothing _)

include hs in
theorem ends_classMembers {c : Member} (hc : c.Sliced s.tokens) (hkind : c.kind = .classLike) :
    Ends (classMembers s c) (fun ms => ∀ m ∈ ms, m.Sliced s.tokens) (Fault source) := by
  unfold classMembers
  split
  · next body hbody =>
    exact (ends_membersIn hs (hc.body body hbody) (hc.follow hkind body hbody)).imp (fun _ => id)
      fun _ => False.elim
  · exact .ok (List.forall_mem_nil _)

theorem ends_findClass {accepts : Member → Attempt Bool} {cs : List Member} {F : Failure → Prop}
    (h : ∀ c ∈ cs, Ends (accepts c) (fun _ => True) F) :
    Ends (findClass accepts cs) (fun o => ∀ c ∈ o, c ∈ cs) F := by
  induction cs with
  | nil => exact .ok fun c hc => absurd hc (Option.not_mem_none c)
  | cons c cs ih =>
    obtain ⟨hc, hcs⟩ := List.forall_mem_cons.1 h
    unfold findClass
    refine Ends.bind hc fun accepted _ => ?_
    split_ifs
    · refine .ok ?_
      rintro _ ⟨⟩
      exact List.mem_cons_self
    · exact (ih hcs).imp (fun o ho d hd => List.mem_cons_of_mem _ (ho d hd)) fun _ => id

theorem mem_classesOf {declarations : List Member} {e : String × Member}
    (h : e ∈ classesOf declarations) :
    e.2 ∈ declarations ∧ e.2.kind = .classLike := by
  obtain ⟨m, hm, rfl⟩ := List.mem_map.1 (Assoc.mem_of_mem_ofPairs h)
  obtain ⟨hm, hkind⟩ := List.mem_filter.1 hm
  exact ⟨hm, by simpa using hkind⟩

theorem ends_stateClass (hread : Source.read source = .ok s) {declarations : List Member}
    (hmembers : s.members = .ok declarations) (name : String) :
    Ends (findClass (fun c => do
      if !stateBases.contains c.superName then return false
      return (← c.superTypeArgs) == name) ((classesOf declarations).map (·.2)))
      (fun o => ∀ c ∈ o, c ∈ declarations ∧ c.kind = .classLike) (Fault source) := by
  have hclasses {c : Member} (hc : c ∈ (classesOf declarations).map (·.2)) :
      c ∈ declarations ∧ c.kind = .classLike := by
    obtain ⟨e, he, rfl⟩ := List.mem_map.1 hc
    exact mem_classesOf he
  refine (ends_findClass fun c hc => ?_).imp (fun o ho c hc => hclasses (ho c hc)) fun _ => id
  cases stateBases.contains c.superName with
  | false => exact .done
  | true => exact Ends.bind (ends_superTypeArgs hread hmembers (hclasses hc).1) fun _ _ => .done

include hs in
theorem ends_widgetClass (hread : Source.read source = .ok s) {declarations : List Member}
    (hmembers : s.members = .ok declarations) (hdecl : ∀ m ∈ declarations, m.Sliced s.tokens)
    {widget : Member} (hwidget : widget ∈ declarations) (hkind : widget.kind = .classLike) :
    Ends (widgetClass table s declarations widget) (fun _ => True) (Fault source) := by
  have hmissing (name : String) (place : Place) :
      Fault source (.malformed ("no build method returning a widget in " ++ name) place) :=
    .inl ⟨_, _, rfl⟩
  unfold widgetClass
  extract_lets classes rest
  have hrest (o : Option Member) (ho : ∀ c ∈ o, c ∈ declarations ∧ c.kind = .classLike) :
      Ends (rest o) (fun _ => True) (Fault source) := by
    have hhost : o.getD widget ∈ declarations ∧ (o.getD widget).kind = .classLike := by
      cases o with
      | none => exact ⟨hwidget, hkind⟩
      | some c => exact ho c rfl
    refine Ends.bind (ends_classMembers hs (hdecl _ hhost.1) hhost.2) fun hostMembers hsliced => ?_
    cases hfind : hostMembers.find? fun m => m.kind == .method && m.name == "build" with
    | none => exact .error (hmissing _ _)
    | some build =>
      have hbuild := hsliced build (List.mem_of_find?_eq_some hfind)
      dsimp -zeta only
      cases hreturned : build.returned? with
      | none => exact .error (hmissing _ _)
      | some returned =>
        dsimp -zeta only
        extract_lets missing statements finish
        have hfinish (ms : List Member) (hms : ∀ m ∈ ms, m.Sliced s.tokens) :
            Ends (finish ms) (fun _ => True) (Fault source) := by
          have hown (kept : Member → Bool) : ∀ m ∈ (ms ++ hostMembers).filter kept,
              m.Sliced s.tokens :=
            fun m hm => (List.mem_append.1 (List.mem_filter.1 hm).1).elim (hms m) (hsliced m)
          refine Ends.bind
            (ends_scanWidget hs hread hmembers hdecl (fun c hc => (ho c hc).1) (hown _) _)
            fun scan _ => ?_
          refine Ends.bind (ends_range_expr hs (infix_returned? hbuild hreturned)) fun e he => ?_
          exact Ends.bind (ends_lowerRoot hs hdecl table he) fun _ _ => .done
        cases o.isSome with
        | true => exact Ends.bind (ends_classMembers hs (hdecl widget hwidget) hkind) hfinish
        | false => exact hfinish [] (List.forall_mem_nil _)
  cases statefulBases.contains widget.superName with
  | true => exact Ends.bind (ends_stateClass hread hmembers _) hrest
  | false => exact hrest none fun c hc => absurd hc (Option.not_mem_none c)

/-- Reading a widget source fails with a place or for a hazard. -/
theorem ends_widgetSource (source : String) :
    Ends (widgetSource table source) (fun _ => True) (Fault source) := by
  unfold widgetSource
  have hread : Ends (Source.read source) (fun s => Source.read source = .ok s ∧ s.Cut source)
      (Fault source) :=
    ⟨fun s h => ⟨h, (ends_read source).of_ok s h⟩,
    fun f h => ((ends_read source).of_error f h).imp id .lexeme⟩
  refine Ends.bind hread fun s ⟨hs, hcut⟩ => ?_
  have hmembers : Ends s.members (fun ms => s.members = .ok ms ∧ ∀ m ∈ ms, m.Sliced s.tokens)
      (Fault source) := by
    refine ⟨fun ms h => ⟨h, (ends_members hcut).of_ok ms h⟩, fun f h => ?_⟩
    obtain ⟨rfl, hend⟩ := (ends_members hcut).of_error f h
    exact .inr (.classEnd hs hend)
  refine Ends.bind hmembers fun declarations ⟨hms, hdecl⟩ => ?_
  split
  · next hfind =>
    obtain ⟨hmem, hkind⟩ := mem_classesOf (List.mem_of_find?_eq_some hfind)
    exact ends_widgetClass hcut table hs hms hdecl hmem hkind
  · exact ends_widgetExpression hcut table

end Sources

/-! ## What hazards raise -/

/-- The failures that hazards raise. -/
def raised : List Failure := [.badText, .tooLarge, .unsupported, .divisionByZero, .pastEnd]

theorem LexFault.mem_raised {cs : List Char} {f : Failure} (h : LexFault cs f) : f ∈ raised := by
  rcases h.eq with rfl | rfl | rfl <;> simp [raised]

theorem errsAs_readDouble (s : String) : ErrsAs (Motion.readDouble s) (· ∈ raised) := by
  unfold Motion.readDouble
  split
  · exact errsAs_ok _
  · exact errsAs_error (by simp [raised])

theorem errsAs_nearest (x : Float) : ErrsAs (Motion.nearest x) (· ∈ raised) := by
  unfold Motion.nearest
  split
  · exact errsAs_ok _
  · split_ifs <;> exact errsAs_error (by simp [raised])

theorem errsAs_segmentsOf (part : String) : ErrsAs (Motion.segmentsOf part) (· ∈ raised) := by
  unfold Motion.segmentsOf
  refine errsAs_mapM (fun m => ?_) _
  refine (errsAs_readDouble _).bind fun _ => (errsAs_readDouble _).bind fun _ => ?_
  exact (errsAs_readDouble _).bind fun _ => errsAs_ok _

theorem errsAs_raiseSegments (ss : List Motion.Segment) :
    ErrsAs (Motion.raiseSegments ss) (· ∈ raised) := by
  cases ss with
  | nil => exact errsAs_ok _
  | cons s ss =>
    unfold Motion.raiseSegments
    dsimp only
    split_ifs
    · exact errsAs_error (by simp [raised])
    · exact errsAs_ok _

theorem errsAs_slideEffect (part : String) : ErrsAs (Route.slideEffect part) (· ∈ raised) := by
  have hread (s : String) : ErrsAs (Route.readCoordinate s) (· ∈ raised) := by
    unfold Route.readCoordinate
    split
    · exact errsAs_ok _
    · exact errsAs_error (by simp [raised])
  unfold Route.slideEffect
  split
  · exact errsAs_ok _
  · exact (hread _).bind fun _ => (hread _).bind fun _ => errsAs_ok _

/-- A hazard raises one of five failures. -/
theorem Hazard.mem_raised {source : String} {f : Failure} (h : Hazard source f) : f ∈ raised := by
  cases h with
  | lexeme h => exact LexFault.mem_raised h
  | classEnd => simp [raised]
  | @superclass s ms m f _ _ _ h =>
    unfold Member.superTypeArgs at h
    split at h
    · cases h
    · split at h <;> cases h
      simp [raised]
  | interval _ _ h =>
    exact (errsAs_readDouble _).bind (fun x => errsAs_nearest _) f h
  | @sequence part f _ h =>
    exact ErrsAs.bind (errsAs_segmentsOf part) errsAs_raiseSegments f h
  | offset _ h => exact errsAs_slideEffect _ f h
  | priority => simp [raised]

/-! ## Reports -/

/-- Every widget source is read, or reported with one finding and its place, or has a hazard. -/
theorem readSource_widget (env : Config.Environment) (source file : String) :
    (∃ d warnings, readSource env .widget source file = .ok (.success d warnings)) ∨
    (∃ message place, readSource env .widget source file =
      .ok (.failure [.parse message place file])) ∨
    ∃ f ∈ raised, Hazard source f ∧ readSource env .widget source file = .error f := by
  unfold readSource readParts
  dsimp only
  cases h : widgetSource env.table source with
  | ok p => exact .inl ⟨_, _, rfl⟩
  | error f =>
    rcases (ends_widgetSource env.table source).of_error f h with ⟨message, place, rfl⟩ | hazard
    · exact .inr (.inl ⟨message, place, rfl⟩)
    · have hf := hazard.mem_raised
      refine .inr (.inr ⟨f, hf, hazard, ?_⟩)
      -- what hazards raise is not turned into a report
      simp only [raised, List.mem_cons, List.not_mem_nil, or_false] at hf
      rcases hf with rfl | rfl | rfl | rfl | rfl <;> rfl

theorem readSource_unfinishedEscape :
    readSource {} .widget "Text('\\u')" "<memory>" = .error .badText := by
  have hname : cutLexeme 'T' "ext('\\u')".toList = .ok ⟨.ident, 3, []⟩ := by rfl
  have hopen : cutLexeme '(' "'\\u')".toList = .ok ⟨.punct, 0, []⟩ := by rfl
  have hfault : cutLexeme '\'' "\\u')".toList = .error (.other .badText) := by rfl
  have hscan : Lexeme.scan "Text('\\u')" = .error .badText := by
    unfold Lexeme.scan
    change scanFrom _ _ _ ('T' :: "ext('\\u')".toList) = _
    rw [scanFrom_of_cutLexeme _ _ _ (by decide) hname]
    change scanFrom _ _ _ ('(' :: "'\\u')".toList) >>= _ = _
    rw [scanFrom_of_cutLexeme _ _ _ (by decide) hopen]
    change (scanFrom _ _ _ ('\'' :: "\\u')".toList) >>= _) >>= _ = _
    rw [scanFrom_of_cause _ _ _ (by decide) hfault]
    rfl
  have hread : Source.read "Text('\\u')" = .error .badText := by
    rw [Source.read, hscan]
    rfl
  rw [readSource, readParts, widgetSource, hread]
  rfl

end WidgetBridge.Reading
