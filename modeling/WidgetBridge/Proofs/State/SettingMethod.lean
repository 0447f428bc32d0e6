import WidgetBridge.Proofs.State.Calls
import WidgetBridge.Proofs.State.Mutation
import WidgetBridge.Proofs.WidgetGrammar.Constants
import WidgetBridge.Proofs.WidgetGrammar.Field
import WidgetBridge.State.Expansion

/-!
# Methods that set state

A method that consists of a call of `setState` with one statement, read back from its source as a
member of a class (`declares_setting`).  The forest of the call tells the statement twice: as the
body of the method (`setStateBody_eq`), and as a closure among all those of the class
(`closuresIn_setting`).
-/

namespace WidgetBridge.State

open WidgetBridge.Text WidgetBridge.WidgetGrammar WidgetBridge.Number

/-! ## Closures -/

/-- The statements of the closure that a range holds. -/
def closureOf (r : Range) : Attempt (Option (List String)) :=
  if r.isEmpty then pure none else r.expr.map closureStatements

/-- The closures that a forest gives to `setState`. -/
def closuresIn (ts : List TokenTree) : Attempt (List (List String)) :=
  (argumentsOf "setState" ts).filterMapM closureOf

theorem mutatedNames_eq (body : Range) : mutatedNames body = (closuresIn body.trees).map fun cs =>
    cs.flatten.filterMap fun s => (normalizeMutation s).map (·.1) := by
  change (closuresIn body.trees >>= fun cs => pure _) = _
  cases closuresIn body.trees <;> rfl

theorem filterMapM_append {α β : Type} {f : α → Attempt (Option β)} {as bs : List α}
    {cs ds : List β} (has : as.filterMapM f = .ok cs) (hbs : bs.filterMapM f = .ok ds) :
    (as ++ bs).filterMapM f = .ok (cs ++ ds) := by
  induction as generalizing cs with
  | nil =>
    cases has
    exact hbs
  | cons a as ih =>
    rw [List.filterMapM_cons] at has
    rw [List.cons_append, List.filterMapM_cons]
    rcases hfa : f a with e | _ | c
    · rw [hfa] at has
      cases has
    · rw [hfa] at has
      exact ih has
    · rw [hfa] at has
      cases hrest : as.filterMapM f with
      | error e =>
        simp only [bind, Except.bind, hrest] at has
        cases has
      | ok rest =>
        simp only [bind, Except.bind, hrest, pure, Except.pure, Except.ok.injEq] at has
        simp only [bind, Except.bind, ih hrest, pure, Except.pure, ← has, List.cons_append]

theorem closuresIn_append {ts us : List TokenTree} (h : LeafFirst us) {cs ds : List (List String)}
    (hts : closuresIn ts = .ok cs) (hus : closuresIn us = .ok ds) :
    closuresIn (ts ++ us) = .ok (cs ++ ds) := by
  unfold closuresIn at *
  rw [argumentsOf_append _ _ h]
  exact filterMapM_append hts hus

theorem exprOf_block {o z o' z' : Token} (ho : o.isPunct "(" = true)
    (ho' : o'.isPunct "\x7b" = true) (inner vs : List TokenTree) (follow : Option Token)
    (fuel : Nat) :
    exprOf (fuel + 2) ⟨[.group o inner z, .group o' vs z'], follow⟩ =
      .ok (.closure ⟨[.group o inner z, .group o' vs z'], follow⟩ (paramNames ⟨inner, some z⟩) none
        (some ⟨vs, some z'⟩)) := by
  rw [exprOf_succ (List.cons_ne_nil _ _) (Or.inl rfl)]
  simp [literalTokens?, atom?, shapeOf, startsAngle, collection?, openShape, ho, ho', shapeExpr]

/-! ## Statements -/

theorem statement_append {ts : List TokenTree}
    (hts : ∀ u ∈ ts, u.isPunct ";" = false ∧ u.isPunct "\x7b" = false) {t : Token}
    (ht : t.isPunct ";" = true) (first : String) (seen us : List TokenTree) :
    statement first seen (ts ++ .leaf t :: us) = (seen.reverse ++ ts ++ [.leaf t], us) := by
  induction ts generalizing seen with
  | nil => simp [statement, ht]
  | cons u ts ih =>
    rw [List.forall_mem_cons] at hts
    have ih := ih hts.2 (u :: seen)
    cases u with
    | leaf v =>
      have hv : v.isPunct ";" = false := hts.1.1
      rw [List.cons_append, statement, if_neg (by simp [hv]), ih]
      simp
    | group o inner c =>
      have ho : o.isPunct "\x7b" = false := hts.1.2
      rw [List.cons_append, statement]
      simp only [ho, Bool.false_and, Bool.false_eq_true, if_false, ih]
      simp

theorem statements_single {ts : List TokenTree}
    (hts : ∀ u ∈ ts, u.isPunct ";" = false ∧ u.isPunct "\x7b" = false) {t : Token}
    (ht : t.isPunct ";" = true) (follow : Option Token) :
    (Range.mk (ts ++ [.leaf t]) follow).statements = [⟨ts ++ [.leaf t], follow⟩] := by
  obtain ⟨u, us, hcons⟩ := List.exists_cons_of_ne_nil
    (List.append_ne_nil_of_right_ne_nil ts (List.cons_ne_nil (TokenTree.leaf t) []))
  have hcut := statement_append hts ht u.first.text [] []
  have hend : ∀ fuel, statementsFrom follow fuel [] = [] := fun fuel => by cases fuel <;> rfl
  rw [List.reverse_nil, List.nil_append, hcons] at hcut
  rw [Range.statements, hcons, List.length_cons, statementsFrom, hcut]
  simp [hend]

/-! ## Calls of `setState` -/

/-- A text without brackets that is a statement once a semicolon follows it. -/
structure IsStatement (a : String) (ws : List (String × Word)) : Prop where
  spelt : Spelt (a ++ ";") (rowOf (ws ++ [("", semicolon)]))
  inline : isInline (a ++ ";") = true
  plain : ∀ mark ∈ [";", "\x7b"], ∀ w ∈ ws, w.2.isPunct mark = false
  lacksGetter : lacksGetter (ws.map (·.2)) = true

/-- A forest that is a call of `setState` with a closure of one statement. -/
def IsCallWith (statement : String) (ts : List TokenTree) : Prop :=
  ∃ k p q q' r r' p' body, ts = [.leaf k, .group p [.group q [] q', .group r body r'] p'] ∧
    k.IsWord (.name "setState") ∧ p.isPunct "(" = true ∧ q.isPunct "(" = true ∧
    r.isPunct "\x7b" = true ∧ (Range.mk body (some r')).statements.map Range.text = [statement]

/-- The outline of a call of `setState` with a closure of one statement. -/
def callPieces (ws : List (String × Word)) : List Piece :=
  [.word "\n  " (.name "setState"), .group "" .round [.group "" .round [] "",
    .group " " .curly (leadWith "\n    " (rowOf (ws ++ [("", semicolon)]))) "\n  "] ""]

theorem matches_rowOf_concat {ts : List TokenTree} {ws : List (String × Word)} {w : String × Word}
    (h : Matches ts (rowOf (ws ++ [w]))) :
    ∃ toks t, ts = leaves toks ++ [.leaf t] ∧ AreWords toks ws ∧ t.IsWord w.2 := by
  have hlast : ∀ {us : List TokenTree}, ShowsAll us (rowOf [w]) →
      ∃ t, us = [.leaf t] ∧ t.IsWord w.2 := by
    intro us hus
    obtain ⟨t, _, rfl, ht, hnil⟩ := matches_word_cons.1 hus.matches
    exact ⟨t, by rw [showsAll_nil.1 hnil], ht⟩
  cases ws with
  | nil =>
    obtain ⟨t, us, rfl, ht, hnil⟩ := matches_word_cons.1 h
    exact ⟨[], t, by rw [showsAll_nil.1 hnil]; rfl, .nil, ht⟩
  | cons v vs =>
    rw [rowOf, List.map_append] at h
    obtain ⟨toks, us, rfl, htoks, hus⟩ := matches_rowOf_append h
    obtain ⟨t, rfl, ht⟩ := hlast hus
    exact ⟨toks, t, rfl, htoks, ht⟩

theorem isCallWith_of_shows {a : String} {ws : List (String × Word)} (h : IsStatement a ws)
    {ts : List TokenTree} (hts : ShowsAll ts (callPieces ws)) : IsCallWith (a ++ ";") ts := by
  obtain ⟨_, us, rfl, hname, hus⟩ := showsAll_cons.1 hts
  obtain ⟨k, rfl, hk⟩ := shows_word.1 hname
  obtain ⟨_, us, rfl, hcall, hnil⟩ := showsAll_cons.1 hus
  obtain ⟨p, vs, p', rfl, hp, -, hargs⟩ := shows_group.1 hcall
  obtain ⟨_, vs, rfl, hparams, hvs⟩ := showsAll_cons.1 hargs
  obtain ⟨q, inner, q', rfl, hq, -, hnone⟩ := shows_group.1 hparams
  obtain ⟨_, vs, rfl, hblock, hnil'⟩ := showsAll_cons.1 hvs
  obtain ⟨r, body, r', rfl, hr, -, hbody⟩ := shows_group.1 hblock
  rw [showsAll_nil] at hnil hnil' hnone
  subst hnil hnil' hnone
  have hmatch := matches_leadWith.1 hbody.matches
  refine ⟨k, p, q, q', r, r', p', body, rfl, hk.isWord, hp.isWord.isPunct_eq "(",
    hq.isWord.isPunct_eq "(", hr.isWord.isPunct_eq "\x7b", ?_⟩
  have htext : TokenTree.textOf body = a ++ ";" := h.spelt.textOf_eq h.inline hmatch
  obtain ⟨toks, t, rfl, htoks, ht⟩ := matches_rowOf_concat hmatch
  have hplain : ∀ u ∈ leaves toks, u.isPunct ";" = false ∧ u.isPunct "\x7b" = false := fun u hu =>
    ⟨htoks.isPunct_eq_false (h.plain ";" (by decide)) u hu,
      htoks.isPunct_eq_false (h.plain "\x7b" (by decide)) u hu⟩
  rw [statements_single hplain (ht.isPunct_eq ";"), List.map_singleton, Range.text, htext]

/-- The call is read as one, and its argument as a closure of the statement. -/
theorem IsCallWith.expr {statement : String} {ts : List TokenTree} (h : IsCallWith statement ts)
    (follow : Option Token) : ∃ r fn comments,
      (Range.mk ts follow).expr = .ok (.call r "setState" "" [(none, fn)] comments) ∧
      closureStatements fn = some [statement] := by
  obtain ⟨k, p, q, q', r, r', p', body, rfl, hk, hp, hq, hr, hstatements⟩ := h
  have hconst := hk.not_const (by simp [Word.name])
  have htokens : literalTokens? [.leaf k, .group p [.group q [] q', .group r body r'] p'] =
      none := by
    simp [literalTokens?, hk.kind_eq, Word.name]
  have hargs : Range.splitFrom "," (some p') [] [.group q [] q', .group r body r'] =
      [⟨[.group q [] q', .group r body r'], some p'⟩] := rfl
  obtain ⟨fuel, hfuel⟩ : ∃ n, 3 * TokenTree.sizeOf'
      [.leaf k, .group p [.group q [] q', .group r body r'] p'] + 3 = n + 5 := by
    simp only [TokenTree.sizeOf', TokenTree.size]
    exact ⟨_, rfl⟩
  have hexpr : (Range.mk [.leaf k, .group p [.group q [] q', .group r body r'] p'] follow).expr =
      .ok (.call ⟨[.leaf k, .group p [.group q [] q', .group r body r'] p'], follow⟩ "setState" ""
        [(none, .closure ⟨[.group q [] q', .group r body r'], some p'⟩
          (paramNames ⟨[], some q'⟩) none
          (some ⟨body, some r'⟩))] (leadingComments [.group q [] q', .group r body r'] p')) := by
    rw [Range.expr, hfuel, exprOf_succ (List.cons_ne_nil _ _) (Or.inl (dropConst_leaf hconst _)),
      htokens]
    simp only [atom?, shapeOf_call hk rfl hp, shapeExpr, Range.splitTop, hargs, argsOf,
      argumentRange, exprOf_block hq hr, bind, Except.bind, pure, Except.pure]
  exact ⟨_, _, _, hexpr, congrArg some hstatements⟩

theorem IsCallWith.closures {statement : String} {ts : List TokenTree} (h : IsCallWith statement ts)
    (e : Token) : closuresIn (ts ++ [.leaf e]) = .ok [[statement]] := by
  obtain ⟨k, p, q, q', r, r', p', body, rfl, hk, hp, hq, hr, hstatements⟩ := h
  have hname : k.isName "setState" = true := hk.isName_eq "setState"
  obtain ⟨fuel, hfuel⟩ : ∃ n, 3 * TokenTree.sizeOf' [.group q [] q', .group r body r'] +
      3 = n + 2 := by
    simp only [TokenTree.sizeOf', TokenTree.size]
    exact ⟨_, rfl⟩
  have hclosure : closureOf ⟨[.group q [] q', .group r body r'], some p'⟩ =
      .ok (some [statement]) := by
    rw [closureOf, Range.expr, hfuel, exprOf_block hq hr]
    simp only [Range.isEmpty, List.isEmpty_cons, Bool.false_eq_true, if_false, Except.map,
      closureStatements, hstatements]
  simp only [closuresIn, List.cons_append, List.nil_append, argumentsOf, hname, hp,
    Bool.and_self, if_true, List.filterMapM_cons, hclosure, List.filterMapM_nil, bind, Except.bind,
    pure, Except.pure]

/-! ## Methods that set state -/

theorem map_wordsOf_leadWith (g : String) (ps : List Piece) :
    (wordsOf (leadWith g ps)).map (·.2) = (wordsOf ps).map (·.2) := by
  rcases ps with _ | ⟨⟨g₀, w⟩ | ⟨g₀, b, inner, g'⟩, ps⟩ <;> rfl

/-- A text without brackets that can be the parameters of a method: it declares names, and is no
closure. -/
structure IsParams (a : String) (ws : List (String × Word)) (names : List String) : Prop where
  toList_eq : a.toList = spellAll (rowOf ws)
  sound : SoundAll (rowOf ws)
  lacksGetter : lacksGetter (ws.map (·.2)) = true
  names_eq : ∀ toks, AreWords toks ws → ∀ follow, paramNames ⟨leaves toks, follow⟩ = names
  no_closure : ∀ toks, AreWords toks ws → ∀ follow, closureOf ⟨leaves toks, follow⟩ = .ok none

/-- A method that consists of a call of `setState` with a closure of one statement. -/
structure IsSetting (name : String) (params : List String) (statement : String)
    (m : Member) : Prop where
  kind_eq : m.kind = .method
  name_eq : m.name = name
  params_eq : paramsOfMember m = params
  statements_eq : setStateBody m = .ok (some [statement])
  leafFirst : LeafFirst m.range.trees
  closures_eq : closuresIn m.range.trees = .ok [[statement]]

/-- The outline of a method that sets state. -/
def settingPieces (name : String) (params body : List (String × Word)) : List Piece :=
  [.word "" (.name "void"), .word " " (.name name), .group "" .round (rowOf params) "",
    .group " " .curly (callPieces body ++ [.word "" semicolon]) "\n"]

section Setting

variable {name a mutation : String} {params body : List (String × Word)} {names : List String}

theorem soundAll_callPieces (hb : IsStatement mutation body) :
    SoundAll (callPieces body ++ [.word "" semicolon]) := by
  have hgap : isGap "\n    " = true := by decide
  have hnone : SoundAll [] := trivial
  have hsemicolon : SoundAll [.word "" semicolon] := single_semicolon.spelt.sound
  have hblock :=
    soundAll_group (by decide : isGap " " = true) (by decide : isGap "\n  " = true) .curly
    (soundAll_leadWith hgap hb.spelt.sound) hnone
  have hclosure :=
    soundAll_group (rfl : isGap "" = true) (rfl : isGap "" = true) .round hnone hblock
  have hcall :=
    soundAll_group (rfl : isGap "" = true) (rfl : isGap "" = true) .round hclosure hsemicolon
  exact soundAll_word (g := "\n  ") (by decide) (single_name (by decide)) hcall rfl (c := '(') rfl

theorem spelt_settingMethod (hname : isName name = true) (hp : IsParams a params names)
    (hb : IsStatement mutation body) :
    Spelt (settingMethod ("void " ++ name ++ "(" ++ a ++ ")") mutation)
      (settingPieces name params body) := by
  refine ⟨?_, ?_, List.cons_ne_nil _ _⟩
  · have hbody : spellAll (leadWith "\n    " (rowOf (body ++ [("", semicolon)]))) =
        "\n    ".toList ++ (mutation ++ ";").toList := by
      rw [spellAll_leadWith _ hb.spelt.ne_nil, ← hb.spelt.toList_eq]
    have hend : semicolon.text = ";" := rfl
    simp [settingMethod, methodText, join, settingPieces, callPieces, Piece.spell, Word.name,
      hend, hbody, Bracket.opener, Bracket.closer, hp.toList_eq]
  · have hnone : SoundAll [] := trivial
    have hbraces :=
      soundAll_group (by decide : isGap " " = true) (by decide : isGap "\n" = true) .curly
      (soundAll_callPieces hb) hnone
    have hall :=
      soundAll_group (rfl : isGap "" = true) (rfl : isGap "" = true) .round hp.sound hbraces
    have hhead := soundAll_word (g := " ") (by decide) (single_name hname) hall rfl (c := '(') rfl
    exact soundAll_soft (g := "") rfl (single_name (s := "void") (by decide)) hhead rfl
      (c := ' ') rfl

/-- The forest of a method that sets state. -/
theorem matches_settingPieces (hb : IsStatement mutation body) {ts : List TokenTree}
    (h : Matches ts (settingPieces name params body)) :
    ∃ v n o toks z p call e z',
      ts = [.leaf v, .leaf n, .group o (leaves toks) z, .group p (call ++ [.leaf e]) z'] ∧
      v.IsWord (.name "void") ∧ n.IsWord (.name name) ∧ o.IsWord (.mark "(") ∧
        AreWords toks params ∧
      p.IsWord (.mark "\x7b") ∧ IsCallWith (mutation ++ ";") call ∧ e.isPunct ";" = true := by
  obtain ⟨v, us, rfl, hv, hu⟩ := matches_word_cons.1 h
  obtain ⟨n, us, rfl, hn, hu₁⟩ := matches_word_cons.1 hu.matches
  obtain ⟨_, us, rfl, hparams, hu₂⟩ := showsAll_cons.1 hu₁
  obtain ⟨o, inner, z, rfl, ho, -, hinner⟩ := shows_group.1 hparams
  obtain ⟨_, us, rfl, hbraces, hnil⟩ := showsAll_cons.1 hu₂
  obtain ⟨p, inner', z', rfl, hp, -, hbody⟩ := shows_group.1 hbraces
  obtain ⟨call, last, rfl, hcall, hlast⟩ := showsAll_append.1 hbody
  obtain ⟨e, _, rfl, he, hnil'⟩ := matches_word_cons.1 hlast.matches
  rw [← List.append_nil (rowOf params)] at hinner
  obtain ⟨toks, us', rfl, htoks, hnil''⟩ := showsAll_rowOf_append hinner
  rw [showsAll_nil] at hnil hnil' hnil''
  subst hnil hnil' hnil''
  exact ⟨v, n, o, toks, z, p, call, e, z', by rw [List.append_nil], hv, hn, ho.isWord, htoks,
    hp.isWord, isCallWith_of_shows hb hcall, he.isPunct_eq ";"⟩

theorem lacksGetter_settingPieces (name : String) (hp : IsParams a params names)
    (hb : IsStatement mutation body) :
    lacksGetter ((wordsOf (settingPieces name params body)).map (·.2)) = true := by
  have hbody : (wordsOf (leadWith "\n    " (rowOf (body ++ [("", semicolon)])))).map (·.2) =
      body.map (·.2) ++ [semicolon] := by
    rw [map_wordsOf_leadWith, wordsOf_rowOf, List.map_append]
    rfl
  have hmark : ∀ s : String, ((Word.mark s).kind == .ident) = false := fun s => rfl
  have hsemicolon : (semicolon.kind == .ident) = false := rfl
  have hwords : (wordsOf (settingPieces name params body)).map (·.2) =
      [Word.name "void", Word.name name] ++ Word.mark "(" :: (params.map (·.2) ++ Word.mark ")" ::
        ([] ++ Word.mark "\x7b" ::
          ([Word.name "setState"] ++ Word.mark "(" :: ([] ++ Word.mark "(" ::
          ([] ++ Word.mark ")" :: ([] ++ Word.mark "\x7b" :: (body.map (·.2) ++ semicolon ::
            ([] ++ Word.mark "\x7d" :: ([] ++ Word.mark ")" :: ([] ++ semicolon ::
              ([] ++ Word.mark "\x7d" :: []))))))))))) := by
    simp [settingPieces, callPieces, Piece.words, hbody, wordsOf, Bracket.opener, Bracket.closer]
  rw [hwords]
  simp only [lacksGetter_append _ (hmark _), lacksGetter_append _ hsemicolon, hp.lacksGetter,
    hb.lacksGetter]
  simp [lacksGetter, Word.name]

/-- A body that is one call of `setState` gives the statement of its closure. -/
theorem setStateBody_eq {m : Member} {call : List TokenTree} {e : Token} {follow : Option Token}
    {statement : String} (harrow : m.arrow = none)
    (hbody : m.body = some ⟨call ++ [.leaf e], follow⟩) (hcall : IsCallWith statement call)
    (he : e.isPunct ";" = true) :
    setStateBody m = .ok (some [statement]) := by
  have hplain : ∀ u ∈ call, u.isPunct ";" = false ∧ u.isPunct "\x7b" = false := by
    obtain ⟨k, p, q, q', r, r', p', body, rfl, hk, hp, -, -, -⟩ := hcall
    have hopen : p.isPunct ";" = false ∧ p.isPunct "\x7b" = false := by
      simp only [Token.isPunct, Bool.and_eq_true, beq_iff_eq] at hp
      simp [Token.isPunct, hp.2]
    simp only [List.forall_mem_cons, List.not_mem_nil, false_imp_iff, implies_true, and_true]
    exact ⟨⟨hk.isPunct_eq ";", hk.isPunct_eq "\x7b"⟩, hopen⟩
  have hstatements := statements_single hplain he follow
  have hsemicolon : (Range.mk (call ++ [.leaf e]) follow).withoutSemicolon = ⟨call, some e⟩ := by
    simp [Range.withoutSemicolon, he]
  have hne : (Range.mk call (some e)).isEmpty = false := by
    obtain ⟨k, p, q, q', r, r', p', body, rfl, -⟩ := hcall
    rfl
  obtain ⟨r, fn, comments, hexpr, hfn⟩ := hcall.expr (some e)
  have hmember : memberCall m = .ok (some ("setState", [(none, fn)])) := by
    rw [memberCall, harrow, hbody]
    dsimp only
    rw [singleCall, hstatements]
    dsimp only
    rw [hsemicolon, hne, if_neg Bool.false_ne_true, hexpr]
    rfl
  rw [setStateBody, hmember]
  exact congrArg Except.ok hfn

/-- The closures in a method that sets state, whatever its name. -/
theorem closuresIn_setting {v n o z p z' e : Token} {toks : List Token} {call : List TokenTree}
    {statement : String} (hcall : IsCallWith statement call)
    (hnone : closureOf ⟨leaves toks, some z⟩ = .ok none) :
    closuresIn [.leaf v, .leaf n, .group o (leaves toks) z, .group p (call ++ [.leaf e]) z'] =
      .ok [[statement]] := by
  have hinner := hcall.closures e
  unfold closuresIn at hinner ⊢
  have hbody : argumentsOf "setState" [.group p (call ++ [.leaf e]) z'] =
      argumentsOf "setState" (call ++ [.leaf e]) := by
    simp [argumentsOf]
  rw [argumentsOf_leaf "setState" v (leafFirst_cons n _), argumentsOf]
  by_cases hn : (n.isName "setState" && o.isPunct "(") = true
  · -- the parameters look like the arguments of a call
    rw [if_pos hn, hbody, List.filterMapM_cons, hnone]
    exact hinner
  · rw [if_neg hn, argumentsOf, argumentsOf_leaves, List.nil_append, hbody]
    exact hinner

theorem replaceChar_of_isName (hname : isName name = true) : replaceChar ' ' "" name = name := by
  have key : ∀ cs : List Char, (∀ c ∈ cs, isNameChar c = true) →
      (cs.flatMap fun d => if d == ' ' then "".toList else [d]) = cs := by
    intro cs hcs
    induction cs with
    | nil => rfl
    | cons c cs ih =>
      rw [List.forall_mem_cons] at hcs
      have hc : (c == ' ') = false := by
        rw [beq_eq_false_iff_ne]
        rintro rfl
        exact absurd hcs.1 (by decide)
      rw [List.flatMap_cons, hc, ih hcs.2]
      rfl
  rw [replaceChar, key _ fun c hc => isNameChar_of_isName hname hc, String.ofList_toList]

/-- A function whose name is one word after its type is a method. -/
theorem functionMember_method {v n p z : Token} (hname : isName name = true) (hn : n.text = name)
    (hp : p.isPunct "\x7b" = true) (s : Surroundings) (base : Member) (params : Range)
    (inner : List TokenTree) :
    functionMember s base [.leaf v, .leaf n] params [.group p inner z] =
      { base with kind := .method, name, typeText := v.text, params := some params, arrow := none,
                  body := some ⟨inner, some z⟩ } := by
  simp [functionMember, TokenTree.tokensOf, TokenTree.tokens, nameTokens,
    TokenTree.textOfTokens, hn, replaceChar_of_isName hname, callableParts, hp]

/-- A method that sets state is a declaration, and is read as such a method. -/
theorem isDeclaration_setting (hname : isName name = true) (hp : IsParams a params names)
    (hb : IsStatement mutation body) :
    IsDeclaration (settingPieces name params body) (IsSetting name names (mutation ++ ";")) where
  ne_nil := List.cons_ne_nil _ _
  cut ts us hts := by
    obtain ⟨v, n, o, toks, z, p, call, e, z', rfl, hv, hn, ho, -, hp', -, -⟩ :=
      matches_settingPieces hb hts
    have hsign : v.isPunct "@" = false := hv.isPunct_eq "@"
    have hv' : ∀ mark, v.isPunct mark = false := fun mark => hv.isPunct_eq mark
    have hn' : ∀ mark, n.isPunct mark = false := fun mark => hn.isPunct_eq mark
    have hround : o.isPunct "\x7b" = false := ho.isPunct_eq "\x7b"
    have hcurly : p.isPunct "\x7b" = true := hp'.isPunct_eq "\x7b"
    exact ⟨by simp [annotation?, hsign], by simp [declaration, hv', hn', hround, hcurly]⟩
  classified ts hts horder s follow := by
    have hgetter := hts.noGetter (lacksGetter_settingPieces name hp hb)
    obtain ⟨v, n, o, toks, z, p, call, e, z', rfl, hv, hn, ho, htoks, hp', hcall, he⟩ :=
      matches_settingPieces hb hts
    have hv' : ∀ mark, v.isPunct mark = false := fun mark => hv.isPunct_eq mark
    have hn' : ∀ mark, n.isPunct mark = false := fun mark => hn.isPunct_eq mark
    have hmods : modifiersOf
        [.leaf v, .leaf n, .group o (leaves toks) z, .group p (call ++ [.leaf e]) z'] =
        ([], [.leaf v, .leaf n] ++ .group o (leaves toks) z :: [.group p (call ++ [.leaf e]) z']) :=
      modifiersOf_leaf (by rw [hv.text_eq]; decide) _
    have hhead : headText ([.leaf v, .leaf n] ++ .group o (leaves toks) z ::
        [.group p (call ++ [.leaf e]) z']) ∉ directiveWords ++ classWords := by
      have hvoid : v.text = "void" := hv.text_eq
      simp [headText, TokenTree.first, hvoid, directiveWords, classWords]
    have hplain : ∀ mark ∈ ["=", "=>"], ∀ t ∈ [.leaf v, .leaf n] ++ .group o (leaves toks) z ::
        [.group p (call ++ [.leaf e]) z'], TokenTree.isPunct t mark = false := by
      have ho' := ho.isPunct_eq
      have hp'' := hp'.isPunct_eq
      simp [TokenTree.isPunct, TokenTree.first, hv', hn', ho', hp'', Word.isPunct, Word.mark]
    refine ⟨_, classify_of_function hmods (List.cons_ne_nil _ _) hhead (ho.isPunct_eq "(")
      (by simp [TokenTree.isPunct, TokenTree.first, hv', hn']) hplain horder hgetter, ?_⟩
    rw [functionMember_method hname hn.text_eq (hp'.isPunct_eq "\x7b")]
    refine ⟨rfl, rfl, rfl, hp.names_eq toks htoks (some z), ?_, leafFirst_cons _ _, ?_⟩
    · exact setStateBody_eq rfl rfl hcall he
    · exact closuresIn_setting hcall (hp.no_closure toks htoks (some z))

theorem declares_setting (hname : isName name = true) (hp : IsParams a params names)
    (hb : IsStatement mutation body) :
    Declares (settingMethod ("void " ++ name ++ "(" ++ a ++ ")") mutation)
      (IsSetting name names (mutation ++ ";")) :=
  ⟨_, spelt_settingMethod hname hp hb, isDeclaration_setting hname hp hb⟩

end Setting

/-- The words of the type of an object in front of a name. -/
def objectHead (name : String) : List (String × Word) :=
  [("", .name "Map"), ("", .mark "<"), ("", .name "String"), ("", comma), (" ", .name "dynamic"),
    ("", .mark ">"), (" ", .name name)]

theorem spelt_objectHead {name : String} (hname : isName name = true) :
    Spelt ("Map<String, dynamic> " ++ name) (rowOf (objectHead name)) := by
  have hword : ∀ {s : String}, isName s = true → (Word.name s).Single := single_name
  have hless : (Word.mark "<").Single := single_mark (by decide) rfl rfl
  have hgreater : (Word.mark ">").Single := single_mark (by decide) rfl rfl
  have hcomma : comma.Stands ∧ comma.isBracket = false := ⟨stands_comma, rfl⟩
  refine ⟨by simp [objectHead, rowOf, Piece.spell, Word.name, Word.mark, comma], ?_,
    List.cons_ne_nil _ _⟩
  simp only [rowOf, objectHead, List.map_cons, List.map_nil]
  refine soundAll_word rfl (hword rfl) ?_ rfl (c := '<') rfl
  refine soundAll_word rfl hless ?_ (c := 'S') rfl (by decide)
  refine soundAll_soft rfl (hword rfl) ?_ rfl (c := ',') rfl
  refine ⟨⟨rfl, hcomma.1, hcomma.2⟩, by rintro d ⟨⟩; rfl, ?_⟩
  refine soundAll_word rfl (hword rfl) ?_ rfl (c := '>') rfl
  refine soundAll_soft rfl hgreater ?_ rfl (c := ' ') rfl
  exact (spelt_word (single_name hname).stands (single_name hname).not_bracket (g := " ") rfl).sound

/-! ## Parameters -/

theorem closureOf_other {ts : List TokenTree} (hne : ts ≠ [])
    (hconst : dropConst ts = ts ∨ dropConst ts = []) (hliteral : literalTokens? ts = none)
    (hatom : atom? ts = none) (hshape : shapeOf ts = .other) (follow : Option Token) :
    closureOf ⟨ts, follow⟩ = .ok none := by
  have hempty : (Range.mk ts follow).isEmpty = false := by simpa [Range.isEmpty] using hne
  obtain ⟨fuel, hfuel⟩ : ∃ n, 3 * TokenTree.sizeOf' ts + 3 = n + 2 := ⟨_, rfl⟩
  rw [closureOf, hempty, if_neg Bool.false_ne_true, Range.expr, hfuel,
    exprOf_succ hne hconst, hliteral, hatom, hshape]
  rfl

theorem isParams_none : IsParams "" [] [] where
  toList_eq := rfl
  sound := trivial
  lacksGetter := rfl
  names_eq toks htoks follow := by
    obtain rfl := List.forall₂_nil_right_iff.1 htoks
    rfl
  no_closure toks htoks follow := by
    obtain rfl := List.forall₂_nil_right_iff.1 htoks
    rfl

/-- What is known of a name among parameters. -/
theorem isWord_name {t : Token} {s : String} (h : t.IsWord (.name s)) :
    t.isIdent = true ∧ t.text = s ∧ t.lexeme.kind = .ident ∧ ∀ mark, t.isPunct mark = false :=
  ⟨h.isIdent_eq, h.text_eq, h.kind_eq, fun mark => h.isPunct_eq mark⟩

theorem isParams_value : IsParams "value" [("", .name "value")] ["value"] := by
  have hspelt := (single_name (s := "value") (by decide)).spelt
  refine ⟨hspelt.toList_eq, hspelt.sound, rfl, fun toks htoks follow => ?_,
    fun toks htoks follow => ?_⟩
  all_goals
    obtain ⟨t, _, ht, hnil, rfl⟩ := List.forall₂_cons_right_iff.1 htoks
    obtain rfl := List.forall₂_nil_right_iff.1 hnil
    obtain ⟨hident, htext, hkind, hmark⟩ := isWord_name ht
  · simp [paramNames, Range.splitTop, Range.splitFrom, leaves, Range.tokens, TokenTree.tokensOf,
      TokenTree.tokens, hident, htext, hmark]
  · refine closureOf_other (List.cons_ne_nil _ _) (dropConst_singleton t) ?_ ?_ ?_ follow
    · simp [literalTokens?, hkind]
    · simp [atom?, hkind, Token.isName, htext]
    · simp [shapeOf, startsAngle, collection?, openShape, callShape, callHead?, dottedName,
        hident, htext]

theorem isParams_typed {type : String} (htype : isName type = true)
    (hfree : type ∉ ["get", "const", "new", "-"]) :
    IsParams (type ++ " value") [("", .name type), (" ", .name "value")] ["value"] := by
  have hvalue := single_name (s := "value") (by decide)
  have hspelt := (single_name htype).spelt.append_soft
    (spelt_word hvalue.stands hvalue.not_bracket (g := " ") rfl) (c := ' ') rfl rfl
  simp only [List.mem_cons, List.not_mem_nil, or_false, not_or] at hfree
  refine ⟨hspelt.toList_eq, hspelt.sound, ?_, fun toks htoks follow => ?_,
    fun toks htoks follow => ?_⟩
  · simp [lacksGetter, Word.name, hfree.1]
  all_goals
    obtain ⟨t, _, ht, hrest, rfl⟩ := List.forall₂_cons_right_iff.1 htoks
    obtain ⟨n, _, hn, hnil, rfl⟩ := List.forall₂_cons_right_iff.1 hrest
    obtain rfl := List.forall₂_nil_right_iff.1 hnil
    obtain ⟨hident, htext, hkind, hmark⟩ := isWord_name ht
    obtain ⟨hident', htext', hkind', hmark'⟩ := isWord_name hn
  · simp [paramNames, Range.splitTop, Range.splitFrom, leaves, Range.tokens, TokenTree.tokensOf,
      TokenTree.tokens, hmark, hident', htext', hmark']
  · refine closureOf_other (List.cons_ne_nil _ _)
      (Or.inl (dropConst_leaf (by simp [Token.isName, htext, hfree]) _)) ?_ ?_ ?_ follow
    · simp [literalTokens?, hkind]
    · simp [atom?, htext, hfree]
    · simp [shapeOf, startsAngle, collection?, openShape, callShape, callHead?, dottedName,
        hident, htext, htext', ne_angle_of_isName htype]

/-- The parameters of a setter of objects are cut at the comma of their type. -/
theorem isParams_object :
    IsParams "Map<String, dynamic> value" (objectHead "value") ["String", "value"] := by
  have hspelt := spelt_objectHead (by decide : isName "value" = true)
  refine ⟨hspelt.toList_eq, hspelt.sound, by decide, fun toks htoks follow => ?_,
    fun toks htoks follow => ?_⟩
  all_goals
    obtain ⟨a, _, ha, h₁, rfl⟩ := List.forall₂_cons_right_iff.1 htoks
    obtain ⟨b, _, hb, h₂, rfl⟩ := List.forall₂_cons_right_iff.1 h₁
    obtain ⟨c, _, hc, h₃, rfl⟩ := List.forall₂_cons_right_iff.1 h₂
    obtain ⟨d, _, hd, h₄, rfl⟩ := List.forall₂_cons_right_iff.1 h₃
    obtain ⟨f, _, hf, h₅, rfl⟩ := List.forall₂_cons_right_iff.1 h₄
    obtain ⟨g, _, hg, h₆, rfl⟩ := List.forall₂_cons_right_iff.1 h₅
    obtain ⟨n, _, hn, hnil, rfl⟩ := List.forall₂_cons_right_iff.1 h₆
    obtain rfl := List.forall₂_nil_right_iff.1 hnil
    obtain ⟨ha₁, ha₂, ha₃, ha₄⟩ := isWord_name ha
    obtain ⟨hc₁, hc₂, hc₃, hc₄⟩ := isWord_name hc
    obtain ⟨hf₁, hf₂, hf₃, hf₄⟩ := isWord_name hf
    obtain ⟨hn₁, hn₂, hn₃, hn₄⟩ := isWord_name hn
  · have hcut : b.isPunct "," = false ∧ d.isPunct "," = true ∧ g.isPunct "," = false :=
      ⟨hb.isPunct_eq ",", hd.isPunct_eq ",", hg.isPunct_eq ","⟩
    simp [paramNames, Range.splitTop, Range.splitFrom, leaves, Range.tokens, TokenTree.tokensOf,
      TokenTree.tokens, hcut, hc₁, hc₂, hn₁, hn₂, ha₄, hc₄, hf₄, hn₄]
  · have hb' : b.text = "<" := hb.text_eq
    have hd' : d.text = "," := hd.text_eq
    have hg' : g.text = ">" := hg.text_eq
    refine closureOf_other (List.cons_ne_nil _ _)
      (Or.inl (dropConst_leaf (by simp [Token.isName, ha₂]) _)) ?_ ?_ ?_ follow
    · simp [literalTokens?, ha₃]
    · rfl
    · simp [shapeOf, startsAngle, collection?, openShape, callShape, callHead?,
        dottedName, typeArgs?, typeArgsFrom, ha₁, ha₂, hb', hc₂, hd', hf₂, hg', hb.isPunct_eq ".",
        Word.isPunct, Word.mark]

/-! ## Statements that set a state -/

theorem isStatement_of_spelt {a : String} {ws : List (String × Word)} (h : Spelt a (rowOf ws))
    (hn : '\n' ∉ a.toList) (hfirst : ∀ c ∈ a.toList.head?, isNameStart c = true)
    (hplain : ∀ mark ∈ [";", "\x7b"], ∀ w ∈ ws, w.2.isPunct mark = false)
    (hget : lacksGetter (ws.map (·.2)) = true) : IsStatement a ws := by
  have hspelt := h.append_soft single_semicolon.spelt (c := ';') rfl rfl
  refine ⟨by rwa [rowOf, List.map_append], isInline_iff.2 ⟨?_, ?_⟩, hplain, hget⟩
  · simpa using hn
  · have hne : a.toList ≠ [] := by
      rw [h.toList_eq]
      exact spellAll_ne_nil h.sound h.ne_nil
    rw [String.toList_append, List.head?_append_of_ne_nil _ hne]
    intro c hc
    constructor <;> (rintro rfl; exact absurd (hfirst _ hc) (by decide))

section Statements

variable {name : String}

theorem newline_not_mem_assign (hname : isName name = true) {value : String}
    (hv : '\n' ∉ value.toList) : '\n' ∉ (assign name value).toList := by
  have hn : '\n' ∉ name.toList := (stands_name hname).unbroken
  simp [toList_assign, hn, hv]

theorem head_assign (hname : isName name = true) (value : String) :
    ∀ c ∈ (assign name value).toList.head?, isNameStart c = true := by
  obtain ⟨c, cs, hs, hc, -⟩ := isName_iff.1 hname
  rw [toList_assign, hs]
  rintro d ⟨⟩
  exact hc

/-- The statement of a setter. -/
theorem isStatement_set (hname : isName name = true) :
    ∃ ws, IsStatement (assign name "value") ws := by
  have hvalue := single_name (s := "value") (by decide)
  have hfirst : Spelt (Word.name name).text (rowOf [("", .name name)]) := (single_name hname).spelt
  have hspelt := spelt_spaced (spelt_spaced hfirst single_equality) hvalue
  have htext : (Word.name name).text ++ (" " ++ equality.text) ++
      (" " ++ (Word.name "value").text) =
      assign name "value" := by
    rw [← String.toList_inj]
    simp [assign, Word.name, equality, Word.mark]
  rw [htext] at hspelt
  refine ⟨_, isStatement_of_spelt hspelt (newline_not_mem_assign hname (by decide))
    (head_assign hname _)
    ?_ ?_⟩
  · simp [Word.isPunct, Word.name, equality, Word.mark]
  · simp [lacksGetter, Word.name, equality, Word.mark]

/-- The text of a value that is a number more. -/
def raised (name : String) (k : Nat) : String := name ++ " + " ++ showInt k

/-- The statement of a transition that adds a number. -/
theorem isStatement_add (hname : isName name = true) (k : Nat) :
    ∃ ws, IsStatement (assign name (raised name k)) ws := by
  have hplus : (Word.mark "+").Single := single_mark (by decide) rfl rfl
  have hfirst : Spelt (Word.name name).text (rowOf [("", .name name)]) := (single_name hname).spelt
  have hspelt := spelt_spaced (spelt_spaced (spelt_spaced (spelt_spaced hfirst single_equality)
    (single_name hname)) hplus) (single_digits k)
  have htext : (Word.name name).text ++ (" " ++ equality.text) ++ (" " ++ (Word.name name).text) ++
      (" " ++ (Word.mark "+").text) ++ (" " ++ (Word.numeral (String.ofList (digitsOf k))).text) =
        assign name (raised name k) := by
    rw [← String.toList_inj]
    simp [assign, raised, showInt, Word.name, equality, Word.mark, Word.numeral]
  rw [htext] at hspelt
  refine ⟨_, isStatement_of_spelt hspelt (newline_not_mem_assign hname ?_)
    (head_assign hname _) ?_ ?_⟩
  · have hn : '\n' ∉ name.toList := (stands_name hname).unbroken
    have hdigits : '\n' ∉ (String.ofList (digitsOf k)).toList := (single_digits k).stands.unbroken
    simpa [raised, showInt, hn] using hdigits
  · simp [Word.isPunct, Word.name, equality, Word.mark, Word.numeral]
  · simp [lacksGetter, Word.name, equality, Word.mark, Word.numeral]

end Statements

end WidgetBridge.State
