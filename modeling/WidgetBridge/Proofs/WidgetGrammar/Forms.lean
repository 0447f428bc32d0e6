import WidgetBridge.Proofs.WidgetGrammar.Template

/-!
# Further forms of expressions

Rules of `Reads` for the forms in which routers are written: names, with and without a dot, closures
with an expression for their body, constant expressions, and lists with a type.  A closure keeps its
source up to the gap behind the arrow.
-/

namespace WidgetBridge.WidgetGrammar

open WidgetBridge.Text

/-! ## Names -/

/-- A text that is read as some expression. -/
abbrev Readable (a : String) : Prop := Reads a fun _ => True

theorem ne_angle_of_isName {s : String} (h : isName s = true) : s ≠ "<" := by
  rintro rfl
  revert h
  decide

theorem reads_name {s : String} (h : isName s = true) : Readable s := by
  refine (single_name h).phrase fun t ht follow fuel hf => ?_
  simp only [TokenTree.sizeOf', TokenTree.size] at hf
  obtain ⟨fuel, rfl⟩ : ∃ n, fuel = n + 2 := ⟨fuel - 2, by omega⟩
  have htokens : literalTokens? [.leaf t] = none := by simp [literalTokens?, ht.kind_eq, Word.name]
  have hshape : shapeOf [.leaf t] = .other := by
    have hi : t.isIdent = true := ht.isIdent_eq
    simp [shapeOf, startsAngle, collection?, openShape, callShape, callHead?, dottedName, hi,
      ht.text_eq, Word.name, ne_angle_of_isName h]
  rw [exprOf_succ (List.cons_ne_nil _ _) (dropConst_singleton t), htokens]
  have hkind : (t.lexeme.kind == .number) = false := by simp [ht.kind_eq, Word.name]
  simp only [atom?, hkind, Bool.false_eq_true, if_false, hshape, shapeExpr]
  split_ifs
  all_goals exact ⟨_, rfl, rfl, trivial⟩

theorem not_mem_joiningMarks_of_isNameStart {c : Char} (h : isNameStart c = true) :
    c ∉ joiningMarks := by
  have hall : ∀ d ∈ joiningMarks, isNameStart d = false := forall_mem_of_all (by decide)
  intro hc
  simp [hall c hc] at h

/-- The dot. -/
def dot : Word := .mark "."

theorem single_dot : dot.Single := ⟨stands_of_isPlain (by decide), rfl, rfl⟩

/-- A name with a further name behind a dot. -/
theorem spelt_path {a b : String} (ha : isName a = true) (hb : isName b = true) :
    Spelt (a ++ "." ++ b) [.word "" (.name a), .word "" dot, .word "" (.name b)] := by
  obtain ⟨c, cs, hcs, hc, -⟩ := isName_iff.1 hb
  have hname := (single_name hb).spelt
  have hdot := single_dot.spelt.append hname (by
    intro d hd
    have hd : c = d := by simpa [Word.name, hcs] using hd
    subst hd
    simp [Piece.meets, Word.meets, dot, Word.mark, not_mem_joiningMarks_of_isNameStart hc])
  have hpath := (single_name ha).spelt.append hdot (by
    intro d hd
    have hd : '.' = d := by simpa [dot, Word.mark] using hd
    subst hd
    rfl)
  have htext : (Word.name a).text ++ (dot.text ++ (Word.name b).text) = a ++ "." ++ b := by
    rw [String.append_assoc]
    rfl
  exact htext ▸ hpath

theorem reads_path {a b : String} (ha : isCallable a = true) (hb : isName b = true) :
    Readable (a ++ "." ++ b) := by
  obtain ⟨hname, hconst⟩ := isCallable_iff.1 ha
  refine ⟨_, spelt_path hname hb, rfl, fun ts hts follow fuel hf => ?_⟩
  obtain ⟨n, us, rfl, hn, hu⟩ := matches_word_cons.1 hts
  obtain ⟨d, vs, rfl, hd, hv⟩ := matches_word_cons.1 hu.matches
  obtain ⟨m, ws, rfl, hm, hw⟩ := matches_word_cons.1 hv.matches
  rw [showsAll_nil] at hw
  subst hw
  simp only [TokenTree.sizeOf', TokenTree.size] at hf
  obtain ⟨fuel, rfl⟩ : ∃ n, fuel = n + 2 := ⟨fuel - 2, by omega⟩
  have htokens : literalTokens? [.leaf n, .leaf d, .leaf m] = none := by
    simp [literalTokens?, hn.kind_eq, Word.name]
  have hshape : shapeOf [.leaf n, .leaf d, .leaf m] = .other := by
    have hni : n.isIdent = true := hn.isIdent_eq
    have hmi : m.isIdent = true := hm.isIdent_eq
    have hdot : d.isPunct "." = true := hd.isPunct_eq "."
    simp [shapeOf, startsAngle, collection?, openShape, callShape, callHead?, dottedName, hni, hmi,
      hdot, hn.text_eq, Word.name, ne_angle_of_isName hname]
  refine ⟨.other ⟨[.leaf n, .leaf d, .leaf m], follow⟩, ?_, rfl, trivial⟩
  rw [exprOf_succ (List.cons_ne_nil _ _)
    (Or.inl (dropConst_leaf (hn.not_const fun _ => hconst) _)), htokens]
  simp only [atom?, hshape, shapeExpr]

theorem spelt_round {inner : String} {ps : List Piece} (hi : inner.toList = spellAll ps)
    (hs : SoundAll ps) : Spelt ("(" ++ inner ++ ")") [.group "" .round ps ""] := by
  have hnone : isGap "" = true := by decide
  simpa [Bracket.opener, Bracket.closer] using spelt_group .round hi hs hnone hnone

/-! ## Arguments without names -/

/-- An argument in which there is no colon has no name. -/
theorem readsArg_positional {a : String} {P : Expr → Prop} (h : Reads a P) (hc : ':' ∉ a.toList) :
    Phrase a (ReadsArg (none, P)) := by
  obtain ⟨ps, hs, hl, hm⟩ := h
  refine ⟨ps, hs, hl, fun ts hts follow => ⟨⟨ts, follow⟩, ?_, Nat.le_refl _, hm ts hts follow⟩⟩
  unfold argumentRange
  split
  · rename_i n colon v htrees
    have hts' : ts = .leaf n :: .leaf colon :: v := htrees
    have hpunct : colon.isPunct ":" = false := by
      by_contra hp
      rw [Bool.not_eq_false, Token.isPunct, Bool.and_eq_true, beq_iff_eq, beq_iff_eq] at hp
      refine hc ?_
      rw [hs.toList_eq]
      refine hts.mem_spellAll (t := colon) ?_ (by simp [hp.2])
      simp [hts', TokenTree.tokensOf, TokenTree.tokens]
    simp [hpunct]
  · rfl

/-! ## Constant expressions -/

/-- Whether a character starts neither a gap nor one of the words before constructors. -/
def startsBare (c : Char) : Bool := c != ' ' && c != '\n' && c != 'c' && c != 'n'

theorem Spelt.dropConst_eq {a : String} {ps : List Piece} (h : Spelt a ps) {c : Char}
    (ha : a.toList.head? = some c) (hc : startsBare c = true) {ts : List TokenTree}
    (hts : Matches ts ps) : dropConst ts = ts := by
  rw [startsBare] at hc
  simp only [Bool.and_eq_true, bne_iff_ne, ne_eq] at hc
  obtain ⟨p, ps, rfl⟩ := List.exists_cons_of_ne_nil h.ne_nil
  cases p with
  | word g w =>
    obtain ⟨t, us, rfl, ht, -⟩ := matches_word_cons.1 hts
    refine dropConst_leaf (ht.not_const fun _ => ?_) us
    have hgap : withGap "" (.word g w :: ps) = .word g w :: ps :=
      h.sound.withGap_eq fun d hd => by
        rw [← h.toList_eq, ha] at hd
        cases hd
        exact ⟨hc.1.1.1, hc.1.1.2⟩
    have htext : a.toList = w.text.toList ++ spellAll ps := by
      rw [h.toList_eq, ← hgap]
      rfl
    constructor <;> intro hw <;> rw [htext, hw] at ha <;> cases ha
    · exact hc.1.2 rfl
    · exact hc.2 rfl
  | group g b inner g' =>
    obtain ⟨o, vs, d, us, rfl, -⟩ := matches_group_cons.1 hts
    rfl

/-- An expression after `const` is the same expression with a longer range. -/
theorem reads_const {a : String} {P : Expr → Prop} (h : Reads a P) {c : Char}
    (ha : a.toList.head? = some c) (hc : startsBare c = true) :
    Reads ("const " ++ a) fun e => ∃ e₀ r, P e₀ ∧ e = e₀.withRange r := by
  obtain ⟨ps, hs, hl, hm⟩ := h
  have hword : (Word.name "const").Single := single_name (by decide)
  have hspelt := hword.spelt.append (hs.lead (g := " ") (by decide))
    fun d hd => endMeets_of_isSoft _ (by
      have hd : ' ' = d := by simpa using hd
      rw [← hd]
      decide)
  have htext : (Word.name "const").text ++ (" " ++ a) = "const " ++ a := by
    rw [← String.append_assoc]
    rfl
  rw [htext] at hspelt
  refine ⟨_, hspelt, ?_, fun ts hts follow fuel hf => ?_⟩
  · simp [lacks_leadWith, hl, hword.not_comma]
  · obtain ⟨t, us, rfl, ht, hu⟩ := matches_word_cons.1 hts
    have hmatch := matches_leadWith.1 hu.matches
    have hne := hmatch.ne_nil hs.ne_nil
    have hbare : dropConst (.leaf t :: us) = us := by
      have hconst : t.isName "const" = true := ht.isName_eq "const"
      rw [dropConst, hconst, Bool.true_or, if_pos rfl, hs.dropConst_eq ha hc hmatch]
    simp only [TokenTree.sizeOf', TokenTree.size] at hf
    obtain ⟨fuel, rfl⟩ : ∃ n, fuel = n + 1 := ⟨fuel - 1, by omega⟩
    obtain ⟨e, he, -, hP⟩ := hm us hmatch follow fuel (by simp only; omega)
    refine ⟨e.withRange ⟨.leaf t :: us, follow⟩, ?_, by cases e <;> rfl, e, _, hP, rfl⟩
    have hshort : (!us.isEmpty && decide (us.length < (TokenTree.leaf t :: us).length)) = true := by
      simp [hne]
    rw [exprOf]
    simp only [Range.isEmpty, List.isEmpty_cons, Bool.false_eq_true, if_false, hbare, hshort,
      if_true, he]
    rfl

/-! ## Closures -/

/-- The arrow of a closure. -/
def arrow : Word := .mark "=>"

theorem single_arrow : arrow.Single := ⟨stands_of_isPlain (by decide), rfl, rfl⟩

/-- A closure whose body has a property. Its source is kept up to the gap behind the arrow. -/
def IsClosure (head : String) (P : Expr → Prop) (e : Expr) : Prop :=
  ∃ r params body gap, e = .closure r params (some body) none ∧ P body ∧ isGap gap = true ∧
    e.text = head ++ gap ++ body.text

/-- The same for a closure whose parameters have a property. -/
def IsClosureWith (N : List String → Prop) (head : String) (P : Expr → Prop) (e : Expr) : Prop :=
  ∃ r params body gap, e = .closure r params (some body) none ∧ N params ∧ P body ∧
    isGap gap = true ∧
    e.text = head ++ gap ++ body.text

/-- The parameters of a closure and its arrow. -/
def closureHead (params : String) : String := "(" ++ params ++ ") =>"

theorem spelt_closureHead {params : String} {qs : List Piece} (hq : params.toList = spellAll qs)
    (hs : SoundAll qs) :
    Spelt (closureHead params) [.group "" .round qs "", .word " " arrow] := by
  have harrow : Spelt (" " ++ "=>") [.word " " arrow] :=
    spelt_word single_arrow.stands single_arrow.not_bracket (g := " ") (by decide)
  have hspelt := (spelt_round hq hs).append harrow fun d _ => rfl
  have htext : "(" ++ params ++ ")" ++ (" " ++ "=>") = closureHead params := by
    rw [closureHead, String.append_assoc]
    rfl
  exact htext ▸ hspelt

theorem reads_closureWith {params g a : String} {P : Expr → Prop} {qs : List Piece}
    (hq : params.toList = spellAll qs) (hsq : SoundAll qs)
    (hinline : isInline (closureHead params) = true) (h : Reads a P) (hg : isGap g = true)
    (hne : g ≠ "") {N : List String → Prop}
    (hN : ∀ ts, Matches ts qs → ∀ follow, N (paramNames ⟨ts, follow⟩)) :
    Reads (closureHead params ++ (g ++ a)) (IsClosureWith N (closureHead params) P) := by
  obtain ⟨ps, hs, hl, hm⟩ := h
  have hhead := spelt_closureHead hq hsq
  have hspelt := hhead.append (hs.lead hg) fun d hd => endMeets_of_isSoft _ (by
    obtain ⟨c, cs, hcs⟩ := List.exists_cons_of_ne_nil (by simpa using hne : g.toList ≠ [])
    have hd : c = d := by simpa [hcs] using hd
    exact isSoft_of_isGap hg (by simp [hcs, hd]))
  refine ⟨_, hspelt, ?_, fun ts hts follow fuel hf => ?_⟩
  · simp [lacks_leadWith, hl, single_arrow.not_comma]
  obtain ⟨heads, body, rfl, hheads, hbody⟩ := (matches_append hhead.ne_nil).1 hts
  have htext := hhead.textOf_eq hinline hheads
  obtain ⟨o, vs, c, us, rfl, ho, -, -, hv, hu⟩ := matches_group_cons.1 hheads
  obtain ⟨w, ws, rfl, hw, hnil⟩ := matches_word_cons.1 hu.matches
  rw [showsAll_nil] at hnil
  subst hnil
  have hmatch := matches_leadWith.1 hbody.matches
  have hbne := hmatch.ne_nil hs.ne_nil
  obtain ⟨b, bs, rfl⟩ := List.exists_cons_of_ne_nil hbne
  simp only [List.cons_append, List.nil_append, TokenTree.sizeOf', TokenTree.size] at hf
  obtain ⟨fuel, rfl⟩ : ∃ n, fuel = n + 2 := ⟨fuel - 2, by omega⟩
  obtain ⟨e, he, hrange, hP⟩ := hm (b :: bs) hmatch follow fuel (by
    simp only [TokenTree.sizeOf']
    omega)
  have hround : o.isPunct "(" = true := ho.isPunct_eq "("
  have harrow : w.isPunct "=>" = true := hw.isPunct_eq "=>"
  have hshape : shapeOf (.group o vs c :: .leaf w :: b :: bs) =
      .arrow ⟨vs, some c⟩ w (b :: bs) := by
    simp [shapeOf, startsAngle, collection?, openShape, hround, harrow]
  have hatom : atom? (.group o vs c :: .leaf w :: b :: bs) = none := rfl
  refine ⟨.closure ⟨[.group o vs c, .leaf w] ++ b :: bs, follow⟩ (paramNames ⟨vs, some c⟩)
    (some e) none,
    ?_, rfl, _, _, e, gapBefore (b :: bs), rfl, hN vs hv.matches (some c), hP,
    hbody.isGap_gapBefore (soundAll_leadWith hg hs.sound), ?_⟩
  · rw [List.cons_append, List.cons_append, List.nil_append,
      exprOf_succ (List.cons_ne_nil _ _) (Or.inl rfl)]
    simp only [literalTokens?, hatom, hshape, shapeExpr, he, bind, Except.bind, pure, Except.pure]
  · change TokenTree.textOf ([.group o vs c, .leaf w] ++ b :: bs) = _
    rw [textOf_append (List.cons_ne_nil _ _) hbne, htext, Expr.text, hrange]
    rfl

theorem reads_closure {params g a : String} {P : Expr → Prop}
    (hp : Outlined params) (hinline : isInline (closureHead params) = true) (h : Reads a P)
    (hg : isGap g = true) (hne : g ≠ "") :
    Reads (closureHead params ++ (g ++ a)) (IsClosure (closureHead params) P) := by
  obtain ⟨qs, hq, hsq⟩ := hp
  refine (reads_closureWith hq hsq hinline h hg hne (N := fun _ => True) fun _ _ _ => trivial).imp
    fun e he => ?_
  obtain ⟨r, params, body, gap, rfl, -, hrest⟩ := he
  exact ⟨r, params, body, gap, rfl, hrest⟩

/-! ## Lists with a type -/

theorem spelt_typed {type : String} (ht : isName type = true) : Spelt ("<" ++ type ++ ">")
    [.word "" (.mark "<"), .word "" (.name type), .word "" (.mark ">")] := by
  obtain ⟨c, cs, hcs, hc, -⟩ := isName_iff.1 ht
  have hless : (Word.mark "<").Single := ⟨stands_of_isPlain (by decide), rfl, rfl⟩
  have hgreater : (Word.mark ">").Single := ⟨stands_of_isPlain (by decide), rfl, rfl⟩
  have hname := (single_name ht).spelt.append hgreater.spelt (by
    intro d hd
    have hd : '>' = d := by simpa [Word.mark] using hd
    subst hd
    rfl)
  have hspelt := hless.spelt.append hname (by
    intro d hd
    have hd : c = d := by simpa [Word.name, hcs] using hd
    subst hd
    simp [Piece.meets, Word.meets, Word.mark, not_mem_joiningMarks_of_isNameStart hc])
  have htext : (Word.mark "<").text ++ ((Word.name type).text ++ (Word.mark ">").text) =
      "<" ++ type ++ ">" := by
    rw [String.append_assoc]
    rfl
  exact htext ▸ hspelt

/-- A list with a type is read as a list, and no semicolon stands outside of its brackets. -/
theorem exists_typedList {type inner : String} {Ps : List (Expr → Prop)} (ht : isName type = true)
    (h : Listing inner (Ps.map ReadsAs)) (g' : String) (hg' : isGap g' = true) :
    ∃ ps, Spelt ("<" ++ type ++ ">" ++ ("[" ++ inner ++ g' ++ "]")) ps ∧ lacks ";" ps = true ∧
      ∀ ts, Matches ts ps → ∀ follow, ReadsAs (IsList Ps) ⟨ts, follow⟩ := by
  obtain ⟨ps, hs, hsplit⟩ := h.bracketed .square hg'
  have hspelt := (spelt_typed ht).append hs fun d hd => endMeets_of_isSoft _ (by
    have hd : '[' = d := by simpa [Bracket.opener] using hd
    rw [← hd]
    decide)
  refine ⟨_, hspelt, ?_, fun ts hts follow => ?_⟩
  · simp [Word.isPunct, Word.mark, Word.name]
  obtain ⟨heads, us, rfl, hheads, hu⟩ := (matches_append (spelt_typed ht).ne_nil).1 hts
  obtain ⟨l, _, rfl, hless, hu₁⟩ := matches_word_cons.1 hheads
  obtain ⟨n, _, rfl, hn, hu₂⟩ := matches_word_cons.1 hu₁.matches
  obtain ⟨m, _, rfl, hgreater, hu₃⟩ := matches_word_cons.1 hu₂.matches
  rw [showsAll_nil] at hu₃
  subst hu₃
  obtain ⟨o, vs, c, _, rfl, ho, -, -, hv, hnil⟩ := matches_group_cons.1 hu.matches
  rw [showsAll_nil] at hnil
  subst hnil
  have hsquare : o.isPunct "[" = true := ho.isPunct_eq "["
  have hne : type ≠ "<" ∧ type ≠ ">" ∧ type ≠ ";" ∧ type ≠ "=>" := by
    refine ⟨?_, ?_, ?_, ?_⟩ <;> (rintro rfl; revert ht; decide)
  have hshape : shapeOf [.leaf l, .leaf n, .leaf m, .group o vs c] = .listOf vs c := by
    simp [shapeOf, startsAngle, typeArgs?, typeArgsFrom, collection?, hsquare, hless.text_eq,
      hn.text_eq, hgreater.text_eq, Word.mark, Word.name, hne]
  have htokens : literalTokens? [.leaf l, .leaf n, .leaf m, .group o vs c] = none := by
    simp [literalTokens?, hless.kind_eq, Word.mark]
  have hbare : dropConst [.leaf l, .leaf n, .leaf m, .group o vs c] =
      [.leaf l, .leaf n, .leaf m, .group o vs c] :=
    dropConst_leaf (hless.not_const (by simp [Word.mark])) _
  refine readsAs_list (List.cons_ne_nil _ _) hbare htokens rfl hshape ?_
    (hsplit vs hv.matches (some c))
  simp only [List.cons_append, List.nil_append, TokenTree.sizeOf', TokenTree.size]
  omega

/-! ## Methods of a constructed value -/

/-- A call of a method on what a constructor with a type gives. -/
def methodCall (callee type args method margs : String) : String :=
  callee ++ ("<" ++ type ++ ">") ++ ("(" ++ args ++ ")") ++ "." ++ method ++ ("(" ++ margs ++ ")")

theorem head_of_append {a b : String} {c : Char} (ha : a.toList.head? = some c) :
    ∀ d ∈ (a ++ b).toList.head?, d = c := by
  intro d hd
  rw [String.toList_append, List.head?_append, ha] at hd
  cases hd
  rfl

theorem spelt_methodCall {callee type args method margs : String} {ps qs : List Piece}
    (hcallee : isName callee = true) (ht : isName type = true) (hm : isName method = true)
    (hp : args.toList = spellAll ps) (hps : SoundAll ps) (hq : margs.toList = spellAll qs)
    (hqs : SoundAll qs) : Spelt (methodCall callee type args method margs)
      [.word "" (.name callee), .word "" (.mark "<"), .word "" (.name type), .word "" (.mark ">"),
        .group "" .round ps "", .word "" dot, .word "" (.name method), .group "" .round qs ""] := by
  obtain ⟨c, cs, hcs, hc, -⟩ := isName_iff.1 hm
  have hround : isSoft '(' = true := by decide
  have htyped := (single_name hcallee).spelt.append (spelt_typed ht) (by
    rw [String.append_assoc]
    intro d hd
    rw [head_of_append (by decide : "<".toList.head? = some '<') d hd]
    rfl)
  have hargs := htyped.append (spelt_round hp hps) (by
    rw [String.append_assoc]
    intro d hd
    rw [head_of_append (by decide : "(".toList.head? = some '(') d hd]
    exact endMeets_of_isSoft _ hround)
  have hdot := hargs.append single_dot.spelt fun d _ => rfl
  have hmethod := hdot.append (single_name hm).spelt (by
    intro d hd
    have hd : c = d := by simpa [Word.name, hcs] using hd
    subst hd
    simp [endMeets, Piece.meets, Word.meets, dot, Word.mark,
      not_mem_joiningMarks_of_isNameStart hc])
  exact hmethod.append (spelt_round hq hqs) (by
    rw [String.append_assoc]
    intro d hd
    rw [head_of_append (by decide : "(".toList.head? = some '(') d hd]
    exact endMeets_of_isSoft _ hround)

theorem readable_methodCall {callee type args method margs : String}
    (hcallee : isCallable callee = true) (ht : isName type = true) (hm : isName method = true)
    (ha : Outlined args) (hb : Outlined margs) :
    Readable (methodCall callee type args method margs) := by
  obtain ⟨hname, hconst⟩ := isCallable_iff.1 hcallee
  obtain ⟨ps, hp, hps⟩ := ha
  obtain ⟨qs, hq, hqs⟩ := hb
  refine ⟨_, spelt_methodCall hname ht hm hp hps hq hqs, ?_, fun ts hts follow fuel hf => ?_⟩
  · simp [Word.isPunct, Word.mark, Word.name, dot]
  obtain ⟨n, _, rfl, hn, hu₁⟩ := matches_word_cons.1 hts
  obtain ⟨l, _, rfl, hless, hu₂⟩ := matches_word_cons.1 hu₁.matches
  obtain ⟨t, _, rfl, htype, hu₃⟩ := matches_word_cons.1 hu₂.matches
  obtain ⟨g, _, rfl, hgreater, hu₄⟩ := matches_word_cons.1 hu₃.matches
  obtain ⟨o, vs, c, us, rfl, -, -, -, -, hu₅⟩ := matches_group_cons.1 hu₄.matches
  obtain ⟨d, _, rfl, -, hu₆⟩ := matches_word_cons.1 hu₅.matches
  obtain ⟨m, us, rfl, -, -⟩ := matches_word_cons.1 hu₆.matches
  simp only [TokenTree.sizeOf', TokenTree.size] at hf
  obtain ⟨fuel, rfl⟩ : ∃ n, fuel = n + 2 := ⟨fuel - 2, by omega⟩
  have hne : type ≠ "<" ∧ type ≠ ">" ∧ type ≠ ";" ∧ type ≠ "=>" := by
    refine ⟨?_, ?_, ?_, ?_⟩ <;> (rintro rfl; revert ht; decide)
  have hdot : l.isPunct "." = false := hless.isPunct_eq "."
  have hident : n.isIdent = true := hn.isIdent_eq
  -- behind the type there is more than the arguments of a constructor
  have hhead : callHead? (.leaf n :: .leaf l :: .leaf t :: .leaf g :: .group o vs c :: .leaf d ::
      .leaf m :: us) = none := by
    simp [callHead?, dottedName, startsAngle, typeArgs?, typeArgsFrom, hident, hdot, hless.text_eq,
      htype.text_eq, hgreater.text_eq, Word.mark, Word.name, hne]
  have hshape : shapeOf (.leaf n :: .leaf l :: .leaf t :: .leaf g :: .group o vs c :: .leaf d ::
      .leaf m :: us) = .other := by
    simp [shapeOf, startsAngle, collection?, openShape, callShape, hhead, hn.text_eq, Word.name,
      ne_angle_of_isName hname]
  refine ⟨.other ⟨_, follow⟩, ?_, rfl, trivial⟩
  rw [exprOf_succ (List.cons_ne_nil _ _) (Or.inl (dropConst_leaf (hn.not_const fun _ => hconst) _))]
  simp only [literalTokens?, hn.kind_eq, Word.name, atom?, hshape, shapeExpr]
  rfl

end WidgetBridge.WidgetGrammar
