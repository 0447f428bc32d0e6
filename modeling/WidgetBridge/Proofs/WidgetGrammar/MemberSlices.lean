import WidgetBridge.Proofs.WidgetGrammar.Member
import WidgetBridge.Proofs.WidgetGrammar.Slices

/-!
# Members are slices

`Member.Sliced ts m` says that the parts of a member are runs of the tokens of its source.  Reading
the members of a source can fail in one way only: it runs past the end of a source whose last token
is a word that declares a class (`ends_members`).  It does not fail inside a class, where a bracket
follows (`ends_membersIn`).
-/

namespace WidgetBridge.WidgetGrammar

open WidgetBridge.Text

/-! ## Parts of members -/

theorem tokensOf_suffix {ts us : List TokenTree} (h : ts <:+ us) :
    TokenTree.tokensOf ts <:+ TokenTree.tokensOf us := by
  obtain ⟨as, rfl⟩ := h
  rw [tokensOf_append]
  exact List.suffix_append _ _

theorem infix_withoutSemicolon (r : Range) : r.withoutSemicolon.tokens <:+: r.tokens := by
  unfold Range.withoutSemicolon
  split
  · split_ifs
    · exact infix_tokensOf ( List.dropLast_prefix _).isInfix
    · exact List.infix_rfl
  · exact List.infix_rfl

theorem infix_callableParts (follow : Option Token) (ts : List TokenTree) :
    (∀ r ∈ (callableParts follow ts).1, r.tokens <:+: TokenTree.tokensOf ts) ∧
      ∀ r ∈ (callableParts follow ts).2, r.tokens <:+: TokenTree.tokensOf ts := by
  have htail {t : TokenTree} {ts : List TokenTree} {o : Option Range}
      (h : ∀ r ∈ o, r.tokens <:+: TokenTree.tokensOf ts) :
      ∀ r ∈ o, r.tokens <:+: TokenTree.tokensOf (t :: ts) := fun r hr =>
    (h r hr).trans (infix_tokensOf (List.suffix_cons _ _).isInfix)
  fun_induction callableParts follow ts with
  | case1 => exact ⟨nofun, nofun⟩
  | case2 t ts harrow r =>
    refine ⟨?_, nofun⟩
    rintro _ ⟨⟩
    split_ifs
    · exact List.nil_infix
    · exact (infix_withoutSemicolon _).trans (infix_tokensOf (List.suffix_cons _ _).isInfix)
  | case3 => exact ⟨nofun, nofun⟩
  | case4 t ts harrow hend ih => exact ⟨htail ih.1, htail ih.2⟩
  | case5 o inner c ts hopen =>
    refine ⟨nofun, ?_⟩
    rintro _ ⟨⟩
    refine (List.prefix_append _ [c]).isInfix.trans ((infix_inner o inner c).trans ?_)
    exact infix_tokensOf (List.prefix_append [TokenTree.group o inner c] ts).isInfix
  | case6 o inner c ts hopen ih => exact ⟨htail ih.1, htail ih.2⟩

theorem tokensOf_suffix_of_mem_tails {fuel : Nat} {ts us : List TokenTree}
    (h : us ∈ TokenTree.tails fuel ts) : TokenTree.tokensOf us <:+ TokenTree.tokensOf ts := by
  induction fuel generalizing ts with
  | zero => cases h
  | succ fuel ih =>
    rw [TokenTree.tails] at h
    split at h
    · cases h
    · next t rest hnext =>
      rcases List.mem_cons.1 h with rfl | h
      · exact List.suffix_rfl
      · rw [tokensOf_next? hnext]
        exact (ih h).trans (List.suffix_cons _ _)

theorem getter?_suffix {limit : Nat} {ts after : List TokenTree} {g n : Token}
    (h : getter? limit ts = some (g, n, after)) :
    TokenTree.tokensOf after <:+ TokenTree.tokensOf ts := by
  unfold getter? at h
  obtain ⟨us, hus, h⟩ := List.exists_of_findSome?_eq_some h
  have hsuffix := tokensOf_suffix_of_mem_tails hus
  split at h
  · next g' rest hg =>
    split_ifs at h
    split at h
    · next n' rest' hn =>
      split_ifs at h
      cases h
      rw [tokensOf_next? hg, tokensOf_next? hn] at hsuffix
      exact ((List.suffix_cons _ _).trans (List.suffix_cons _ _)).trans hsuffix
    · cases h
  · cases h

theorem infix_dropLastToken (ts : List TokenTree) :
    TokenTree.tokensOf (dropLastToken ts) <:+: TokenTree.tokensOf ts := by
  unfold dropLastToken
  split
  · next o inner c hlast =>
    obtain ⟨us, rfl⟩ := List.getLast?_eq_some_iff.1 hlast
    rw [List.dropLast_concat, tokensOf_append, tokensOf_append, tokensOf_group]
    refine List.IsPrefix.isInfix ((List.prefix_append_right_inj _).2 ?_)
    rw [TokenTree.tokensOf, TokenTree.tokens, List.singleton_append]
    exact List.cons_prefix_cons.2 ⟨rfl, List.prefix_append _ _⟩
  · exact infix_tokensOf ( List.dropLast_prefix _).isInfix

mutual

theorem tokensOf_beforeIndex (index : Nat) : (t : TokenTree) → InOrder [t] →
    TokenTree.tokensOf (t.beforeIndex index) = t.tokens.filter fun u => u.index < index
  | .leaf t, _ => by
    unfold TokenTree.beforeIndex
    split_ifs with hlt <;> simp [TokenTree.tokensOf, TokenTree.tokens, hlt]
  | .group o inner c, h => by
    have hinner := tokensOf_beforeIndexAll index inner h.inner
    rw [InOrder, tokensOf_group, List.pairwise_cons, List.pairwise_append] at h
    obtain ⟨hfirst, -, -, hlast⟩ := h
    unfold TokenTree.beforeIndex
    split_ifs with hc ho
    · rw [tokensOf_group, TokenTree.tokens, eq_comm, List.cons_append]
      refine List.filter_eq_self.2 fun u hu => ?_
      rw [decide_eq_true_eq]
      rcases List.mem_cons.1 hu with rfl | hu
      · exact (hfirst c (by simp)).trans hc
      · rcases List.mem_append.1 hu with hu | hu
        · exact (hlast u hu c (by simp)).trans hc
        · cases List.mem_singleton.1 hu
          exact hc
    · rw [TokenTree.tokensOf, hinner]
      simp [TokenTree.tokens, ho, hc]
    · rw [TokenTree.tokens, eq_comm, TokenTree.tokensOf, List.cons_append]
      refine List.filter_eq_nil_iff.2 fun u hu => ?_
      rw [decide_eq_true_eq]
      rcases List.mem_cons.1 hu with rfl | hu
      · exact ho
      · have := hfirst u hu
        omega

theorem tokensOf_beforeIndexAll (index : Nat) : (ts : List TokenTree) → InOrder ts →
    TokenTree.tokensOf (TokenTree.beforeIndexAll index ts) =
      (TokenTree.tokensOf ts).filter fun u => u.index < index
  | [], _ => rfl
  | t :: ts, h => by
    rw [← List.singleton_append] at h
    have hfirst : InOrder [t] := h.left
    have hrest : InOrder ts := h.right
    rw [TokenTree.beforeIndexAll, tokensOf_append, tokensOf_beforeIndex index t hfirst,
      tokensOf_beforeIndexAll index ts hrest, TokenTree.tokensOf, List.filter_append]

end

theorem prefix_filter_index {ts : List Token} (h : ts.Pairwise fun t u => t.index < u.index)
    (index : Nat) : (ts.filter fun t => t.index < index) <+: ts := by
  induction ts with
  | nil => exact List.prefix_rfl
  | cons t ts ih =>
    obtain ⟨hlt, hts⟩ := List.pairwise_cons.1 h
    by_cases ht : t.index < index
    · rw [List.filter_cons_of_pos (by simpa using ht)]
      exact List.cons_prefix_cons.2 ⟨rfl, ih hts⟩
    · rw [List.filter_cons_of_neg (by simpa using ht)]
      have hnil : (ts.filter fun t => t.index < index) = [] := by
        refine List.filter_eq_nil_iff.2 fun u hu => ?_
        have := hlt u hu
        rw [decide_eq_true_eq]
        omega
      rw [hnil]
      exact List.nil_prefix

theorem infix_beforeIndexAll {ts : List TokenTree} (h : InOrder ts) (index : Nat) :
    TokenTree.tokensOf (TokenTree.beforeIndexAll index ts) <:+: TokenTree.tokensOf ts := by
  rw [tokensOf_beforeIndexAll index ts h]
  exact (prefix_filter_index h index).isInfix

theorem dotted_eq (ts : List TokenTree) : (dotted ts).1 ++ (dotted ts).2 = ts := by
  fun_induction dotted ts with
  | case1 dot n ts hdot names rest hrest ih =>
    rw [hrest] at ih
    simpa using ih
  | case2 dot n ts hdot => rfl
  | case3 ts hts => rfl

theorem annotation?_eq {ts a rest : List TokenTree} (h : annotation? ts = some (a, rest)) :
    a ++ rest = ts := by
  unfold annotation? at h
  split at h
  · next sign n us =>
    have hdotted := dotted_eq us
    dsimp only at h
    split_ifs at h
    split at h
    · next o inner c rest' heq =>
      rw [heq] at hdotted
      split_ifs at h <;> cases h
      · simpa using hdotted
      · simpa [heq] using hdotted
    · cases h
      simpa using hdotted
  · cases h

theorem annotationsOf_append (fuel : Nat) (ts : List TokenTree) :
    (annotationsOf fuel ts).1.flatten ++ (annotationsOf fuel ts).2 = ts := by
  induction fuel generalizing ts with
  | zero => rfl
  | succ fuel ih =>
    unfold annotationsOf
    split
    · next a rest ha =>
      rw [List.flatten_cons, List.append_assoc, ih rest, annotation?_eq ha]
    · rfl

theorem declaration_append (assigned : Bool) (ts : List TokenTree) :
    (declaration assigned ts).1 ++ (declaration assigned ts).2 = ts := by
  fun_induction declaration assigned ts with
  | case1 => rfl
  | case2 => rfl
  | case3 assigned t ts hend d rest hrest ih =>
    rw [hrest] at ih
    simpa using ih
  | case4 => rfl
  | case5 assigned o inner c ts hopen d rest hrest ih =>
    rw [hrest] at ih
    simpa using ih

theorem modifiersOf_suffix (ts : List TokenTree) : (modifiersOf ts).2 <:+ ts := by
  fun_induction modifiersOf ts with
  | case1 t ts hmodifier ms rest hrest ih =>
    rw [hrest] at ih
    exact ih.trans (List.suffix_cons _ _)
  | case2 t ts hmodifier => exact List.suffix_rfl
  | case3 ts hts => exact List.suffix_rfl

/-! ## Members -/

/-- A member whose parts are runs of tokens.  What follows the body of a class is known, and only
classes have a superclass. -/
structure Member.Sliced (all : List Token) (m : Member) : Prop where
  range : m.range.tokens <:+: all
  initializer : ∀ r ∈ m.initializer, r.tokens <:+: all
  arrow : ∀ r ∈ m.arrow, r.tokens <:+: all
  body : ∀ r ∈ m.body, r.tokens <:+: all
  follow : m.kind = .classLike → ∀ r ∈ m.body, r.follow ≠ none
  superclass : m.kind ≠ .classLike → m.superclass = ""

/-- Tokens the last of which is a word that declares a class. -/
def EndsInClass (ts : List Token) : Prop := ∃ t ∈ ts.getLast?, t.text ∈ classWords

theorem EndsInClass.of_suffix {ts us : List Token} (h : EndsInClass ts) (hs : ts <:+ us) :
    EndsInClass us := by
  obtain ⟨t, ht, hclass⟩ := h
  obtain ⟨as, rfl⟩ := hs
  refine ⟨t, ?_, hclass⟩
  rw [Option.mem_def] at ht ⊢
  rw [List.getLast?_append, ht, Option.some_or]

section Members

variable {all : List Token} {s : Surroundings} {base : Member} {ts : List TokenTree}

theorem sliced_functionMember (hrange : base.range.tokens <:+: all)
    (hinit : base.initializer = none) (hsuper : base.superclass = "") (head : List TokenTree)
    (params : Range) (hts : TokenTree.tokensOf ts <:+: all) :
    (functionMember s base head params ts).Sliced all := by
  have hparts := infix_callableParts s.follow ts
  refine ⟨hrange, ?_, fun r hr => ?_, fun r hr => ?_, fun hkind => ?_, fun _ => hsuper⟩
  · dsimp only [functionMember]
    simp [hinit]
  · exact (hparts.1 r hr).trans hts
  · exact (hparts.2 r hr).trans hts
  · dsimp only [functionMember] at hkind
    split_ifs at hkind

theorem sliced_fieldMember (hrange : base.range.tokens <:+: all) (harrow : base.arrow = none)
    (hbody : base.body = none) (hsuper : base.superclass = "")
    (hts : TokenTree.tokensOf ts <:+: all) :
    (fieldMember s base ts).Sliced all := by
  refine ⟨hrange, fun r hr => ?_, ?_, ?_, nofun, fun _ => hsuper⟩
  · dsimp only [fieldMember] at hr
    rw [Option.mem_def, Option.map_eq_some_iff] at hr
    obtain ⟨⟨a, eq, rest⟩, hcut, rfl⟩ := hr
    dsimp only
    split_ifs
    · exact List.nil_infix
    · refine (infix_withoutSemicolon _).trans (List.IsInfix.trans ?_ hts)
      rw [cutTop?_eq hcut]
      exact infix_tokensOf ((List.suffix_cons _ _).trans (List.suffix_append _ _)).isInfix
  · dsimp only [fieldMember]
    simp [harrow]
  · dsimp only [fieldMember]
    simp [hbody]

theorem sliced_class {body : Range} (hrange : base.range.tokens <:+: all)
    (hinit : base.initializer = none) (harrow : base.arrow = none)
    (hbody : body.tokens <:+: all ∧ body.follow ≠ none) (name superclass : String)
    (modifiers : List String) :
    Member.Sliced all { base with
      kind := .classLike, name, superclass, modifiers, body := some body } := by
  refine ⟨hrange, ?_, ?_, ?_, fun _ => ?_, fun hkind => absurd rfl hkind⟩
  · simp [hinit]
  · simp [harrow]
  · rintro _ ⟨⟩
    exact hbody.1
  · rintro _ ⟨⟩
    exact hbody.2

theorem ends_classMember (hrange : base.range.tokens <:+: all) (hinit : base.initializer = none)
    (harrow : base.arrow = none) (modifiers : List String) (hts : TokenTree.tokensOf ts <:+: all)
    (hunit : TokenTree.tokensOf s.unit = all) (horder : InOrder s.unit)
    (hhead : headText ts ∈ classWords) :
    Ends (classMember s base modifiers ts) (Member.Sliced all) fun f =>
      f = .pastEnd ∧ s.follow = none ∧ EndsInClass (TokenTree.tokensOf ts) := by
  have hne : ts ≠ [] := by
    rintro rfl
    exact absurd hhead (by decide)
  have hlast {us : List TokenTree} (h : us ≠ []) : us.getLast?.map TokenTree.last ≠ none := by
    simpa using h
  constructor
  · intro m h
    unfold classMember at h
    dsimp only at h
    split at h <;> cases h
    -- the body does not depend on where the name was found
    all_goals
      refine sliced_class hrange hinit harrow ?_ _ _ _
      split
      · next head o inner c rest hcut =>
        have htail : TokenTree.tokensOf (inner ++ .leaf c :: rest) <:+: all := by
          refine List.IsInfix.trans ?_ hts
          rw [cutTop?_eq hcut, tokensOf_append, TokenTree.tokensOf, TokenTree.tokens,
            tokensOf_append, TokenTree.tokensOf, TokenTree.tokens]
          refine List.IsInfix.trans ?_ (List.suffix_append _ _).isInfix
          simpa using (List.suffix_cons o _).isInfix
        split_ifs with hrest
        · refine ⟨(infix_tokensOf (List.prefix_append _ _).isInfix).trans htail, nofun⟩
        · exact ⟨(infix_dropLastToken _).trans htail, hlast (by simpa using hrest)⟩
      · exact ⟨hunit ▸ infix_beforeIndexAll horder _, hlast hne⟩
  · intro f h
    unfold classMember at h
    dsimp only at h
    split at h <;> cases h
    next hsecond hfollow =>
    refine ⟨rfl, hfollow, ?_⟩
    cases hnext : TokenTree.next? ts with
    | none =>
      cases ts with
      | nil => exact absurd rfl hne
      | cons t ts => cases t <;> cases hnext
    | some p =>
      obtain ⟨t, rest⟩ := p
      rw [hnext, Option.bind_some, Option.map_eq_none_iff] at hsecond
      have hrest : rest = [] := by
        cases rest with
        | nil => rfl
        | cons u us => cases u <;> cases hsecond
      have htokens := tokensOf_next? hnext
      rw [hrest] at htokens
      refine ⟨t, by rw [htokens]; rfl, ?_⟩
      have hfirst : headText ts = t.text := by
        cases ts with
        | nil => cases hnext
        | cons u us => cases u <;> cases hnext <;> rfl
      rwa [hfirst] at hhead

theorem ends_classify {range : Range} (hrange : range.tokens <:+: all) (annotations : List String)
    (hts : TokenTree.tokensOf ts <:+: all) (hunit : TokenTree.tokensOf s.unit = all)
    (horder : InOrder s.unit) :
    Ends (classify s range annotations ts) (Member.Sliced all) fun f =>
      f = .pastEnd ∧ s.follow = none ∧ EndsInClass (TokenTree.tokensOf ts) := by
  have hsuffix := modifiersOf_suffix ts
  have hrest : TokenTree.tokensOf (modifiersOf ts).2 <:+: all :=
    (infix_tokensOf hsuffix.isInfix).trans hts
  have hplain (kind : MemberKind) (hk : kind ≠ .classLike) (name : String) :
      Member.Sliced all { kind, name, range, annotations } :=
    ⟨hrange, nofun, nofun, nofun, fun h => absurd h hk, fun _ => rfl⟩
  unfold classify
  dsimp only
  split_ifs with hempty hdirective hclass
  · exact .ok (hplain .other nofun "")
  · exact .ok (hplain .directive nofun _)
  · have hhead : headText (modifiersOf ts).2 ∈ classWords := List.contains_iff_mem.1 hclass
    refine (ends_classMember hrange rfl rfl _ hrest hunit horder hhead).imp (fun _ => id) ?_
    rintro f ⟨hf, hfollow, hend⟩
    exact ⟨hf, hfollow, hend.of_suffix (tokensOf_suffix hsuffix)⟩
  · split
    · next g n after hgetter =>
      have hafter := (getter?_suffix hgetter).isInfix.trans hrest
      have hparts := infix_callableParts s.follow after
      exact .ok ⟨hrange, nofun, fun r hr => (hparts.1 r hr).trans hafter,
        fun r hr => (hparts.2 r hr).trans hafter, nofun, fun _ => rfl⟩
    · split
      · next before o inner c after hcut =>
        split_ifs
        · refine .ok (sliced_functionMember hrange rfl rfl _ _ (List.IsInfix.trans ?_ hrest))
          rw [cutTop?_eq hcut]
          exact infix_tokensOf ((List.suffix_cons _ _).trans (List.suffix_append _ _)).isInfix
        · exact .ok (sliced_fieldMember hrange rfl rfl rfl hrest)
      · exact .ok (sliced_fieldMember hrange rfl rfl rfl hrest)

theorem ends_membersFrom {unit : List TokenTree} (hunit : TokenTree.tokensOf unit = all)
    (horder : InOrder unit) (follow : Option Token) (fuel : Nat) (previous : Option Token)
    (hts : TokenTree.tokensOf ts <:+: all) :
    Ends (membersFrom unit follow fuel previous ts) (fun ms => ∀ m ∈ ms, m.Sliced all) fun f =>
      f = .pastEnd ∧ follow = none ∧ EndsInClass (TokenTree.tokensOf ts) := by
  induction fuel generalizing previous ts with
  | zero => exact .ok (List.forall_mem_nil _)
  | succ fuel ih =>
    cases ts with
    | nil => exact .ok (List.forall_mem_nil _)
    | cons t us =>
      have hann := annotationsOf_append (t :: us).length (t :: us)
      have hdecl := declaration_append false (annotationsOf (t :: us).length (t :: us)).2
      unfold membersFrom
      dsimp only
      generalize annotationsOf (t :: us).length (t :: us) = p at hann hdecl ⊢
      obtain ⟨annotations, decl⟩ := p
      dsimp only at hann hdecl ⊢
      generalize declaration false decl = q at hdecl ⊢
      obtain ⟨own, rest⟩ := q
      dsimp only at hdecl ⊢
      have hcut : annotations.flatten ++ own ++ rest = t :: us := by
        rw [List.append_assoc, hdecl, hann]
      have hhead : annotations.flatten ++ own <+: t :: us := ⟨rest, hcut⟩
      have hrest : rest <:+ t :: us := ⟨annotations.flatten ++ own, hcut⟩
      have hall : TokenTree.tokensOf (annotations.flatten ++ own) <:+: all :=
        (infix_tokensOf hhead.isInfix).trans hts
      have hown : TokenTree.tokensOf own <:+: all :=
        (infix_tokensOf (List.suffix_append _ _).isInfix).trans hall
      have hrange {follow : Option Token} :
        (Range.mk (annotations.flatten ++ own) follow).tokens <:+: all := hall
      refine Ends.bind ((ends_classify hrange _ hown hunit horder).imp (fun _ => id) ?_)
        fun m hm => ?_
      · rintro f ⟨hf, hfollow, hend⟩
        cases rest with
        | nil =>
          rw [List.append_nil] at hcut
          have hsuffix : own <:+ t :: us := ⟨annotations.flatten, hcut⟩
          exact ⟨hf, hfollow, hend.of_suffix (tokensOf_suffix hsuffix)⟩
        | cons u rest => cases hfollow
      · refine Ends.bind ((ih _ ((infix_tokensOf hrest.isInfix).trans hts)).imp (fun _ => id) ?_)
          fun ms hms => ?_
        · rintro f ⟨hf, hfollow, hend⟩
          exact ⟨hf, hfollow, hend.of_suffix (tokensOf_suffix hrest)⟩
        · exact .ok (List.forall_mem_cons.2 ⟨hm, hms⟩)

end Members

section Sources

variable {source : String} {s : Source} (hs : s.Cut source)

include hs

/-- The members of a source are read, unless its last token declares a class. -/
theorem ends_members : Ends s.members (fun ms => ∀ m ∈ ms, m.Sliced s.tokens) fun f =>
    f = .pastEnd ∧ EndsInClass s.tokens := by
  have horder : InOrder s.trees := by
    rw [InOrder, hs.tokensOf_trees]
    exact hs.inOrder
  refine (ends_membersFrom hs.tokensOf_trees horder none _ none ?_).imp (fun _ => id) ?_
  · exact hs.tokensOf_trees ▸ List.infix_rfl
  · rintro f ⟨hf, -, hend⟩
    exact ⟨hf, hs.tokensOf_trees ▸ hend⟩

/-- The members of a class are read. -/
theorem ends_membersIn {body : Range} (hbody : body.tokens <:+: s.tokens)
    (hfollow : body.follow ≠ none) :
    Ends (s.membersIn body) (fun ms => ∀ m ∈ ms, m.Sliced s.tokens) fun _ => False := by
  have horder : InOrder s.trees := by
    rw [InOrder, hs.tokensOf_trees]
    exact hs.inOrder
  refine (ends_membersFrom hs.tokensOf_trees horder body.follow _ _ hbody).imp (fun _ => id) ?_
  rintro f ⟨-, hnone, -⟩
  exact hfollow hnone

end Sources

/-! ## Statements -/

theorem statement_append (first : String) (seen ts : List TokenTree) :
    (statement first seen ts).1 ++ (statement first seen ts).2 = seen.reverse ++ ts := by
  fun_induction statement first seen ts with
  | case1 => rfl
  | case2 seen t ts hend => simp
  | case3 seen t ts hend ih => simpa using ih
  | case4 seen o inner c ts seen' hblock => simp [seen']
  | case5 seen o inner c ts seen' hblock ih => simpa [seen'] using ih

theorem tokens_infix_of_mem_statementsFrom {follow : Option Token} {fuel : Nat}
    {ts : List TokenTree} {r : Range} (h : r ∈ statementsFrom follow fuel ts) :
    r.tokens <:+: TokenTree.tokensOf ts := by
  induction fuel generalizing ts with
  | zero => cases h
  | succ fuel ih =>
    cases ts with
    | nil => cases h
    | cons t ts =>
      have hcut := statement_append t.first.text [] (t :: ts)
      rw [List.reverse_nil, List.nil_append] at hcut
      rw [statementsFrom] at h
      rcases List.mem_cons.1 h with rfl | h
      · have hhead : (statement t.first.text [] (t :: ts)).1 <+: t :: ts := ⟨_, hcut⟩
        exact infix_tokensOf hhead.isInfix
      · have hsuffix : (statement t.first.text [] (t :: ts)).2 <:+ t :: ts := ⟨_, hcut⟩
        exact (ih h).trans (infix_tokensOf hsuffix.isInfix)

theorem tokens_infix_of_mem_statements {r p : Range} (h : p ∈ r.statements) :
    p.tokens <:+: r.tokens :=
  tokens_infix_of_mem_statementsFrom h

theorem infix_returned? {all : List Token} {m : Member} (hm : m.Sliced all) {r : Range}
    (h : m.returned? = some r) : r.tokens <:+: all := by
  unfold Member.returned? at h
  split at h
  · next arrow harrow =>
    cases h
    exact hm.arrow r harrow
  · next body _ hbody =>
    rw [Option.map_eq_some_iff] at h
    obtain ⟨p, hp, rfl⟩ := h
    have hmem : p ∈ body.statements := List.mem_of_mem_filter (List.mem_of_getLast? hp)
    refine (infix_withoutSemicolon _).trans ?_
    refine List.IsInfix.trans (infix_tokensOf (List.drop_suffix _ _).isInfix) ?_
    exact (tokens_infix_of_mem_statements hmem).trans (hm.body body hbody)
  · cases h

end WidgetBridge.WidgetGrammar
