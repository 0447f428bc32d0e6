import WidgetBridge.Proofs.WidgetGrammar.Constants
import WidgetBridge.Proofs.WidgetGrammar.Field

/-!
# Declarations that end with a block

Classes and functions end with a block in braces.  A class whose source is fixed is told from its
outline (`declares_class`); a function may have any block in which there is no getter
(`declares_function`). Of both only the name is kept here.
-/

namespace WidgetBridge.WidgetGrammar

open WidgetBridge.Text

/-! ## Getters -/

/-- Whether a word is a given name. -/
def Word.isName (w : Word) (s : String) : Bool := w.kind == .ident && w.text == s

/-- Whether the word `get` does not stand in an outline. -/
def isGetless (ps : List Piece) : Bool := (wordsOf ps).all fun w => !w.2.isName "get"

theorem isGetless_append (ps qs : List Piece) :
    isGetless (ps ++ qs) = (isGetless ps && isGetless qs) := by
  rw [isGetless, wordsOf_append, List.all_append]
  rfl

theorem isGetless_leadWith (g : String) (ps : List Piece) :
    isGetless (leadWith g ps) = isGetless ps := by
  rcases ps with _ | ⟨⟨g₀, w⟩ | ⟨g₀, b, inner, g'⟩, ps⟩ <;> rfl

theorem isGetless_group (g g' : String) (b : Bracket) (inner : List Piece) :
    isGetless [.group g b inner g'] = isGetless inner := by
  have hmarks : (Word.mark b.opener).isName "get" = false ∧
      (Word.mark b.closer).isName "get" = false :=
    ⟨rfl, rfl⟩
  simp [isGetless, wordsOf, Piece.words, hmarks]

theorem lacksGetter_of_isGetless {ps : List Piece} (h : isGetless ps = true) :
    lacksGetter ((wordsOf ps).map (·.2)) = true := by
  rw [isGetless] at h
  generalize wordsOf ps = ws at h ⊢
  induction ws with
  | nil => rfl
  | cons w ws ih =>
    rw [List.all_cons, Bool.and_eq_true, Bool.not_eq_true', Word.isName] at h
    cases ws with
    | nil => rfl
    | cons v ws =>
      have ih := ih h.2
      rw [List.map_cons] at ih
      rw [List.map_cons, List.map_cons, lacksGetter, ih, h.1]
      rfl

/-! ## Classes -/

/-- Whether an outline is that of a class with a given name and nothing but a block behind it. -/
def isClassOutline (name : String) : List Piece → Bool
  | [.word _ k, .word _ n, .group _ .curly _ _] =>
    k.kind == .ident && classWords.contains k.text && n.isName name
  | _ => false

theorem matches_class {g₁ g₂ g₃ g₄ : String} {k n : Word} {inner : List Piece} {ts : List TokenTree}
    (h : Matches ts [.word g₁ k, .word g₂ n, .group g₃ .curly inner g₄]) :
    ∃ t u o vs c, ts = [.leaf t, .leaf u, .group o vs c] ∧ t.IsWord k ∧ u.IsWord n ∧
      o.isPunct "\x7b" = true := by
  obtain ⟨t, us, rfl, ht, hus⟩ := matches_word_cons.1 h
  obtain ⟨u, us, rfl, hu, hus⟩ := matches_word_cons.1 hus.matches
  obtain ⟨o, vs, c, us, rfl, ho, -, -, -, hnil⟩ := matches_group_cons.1 hus.matches
  rw [showsAll_nil] at hnil
  subst hnil
  exact ⟨t, u, o, vs, c, rfl, ht, hu, ho.isPunct_eq "\x7b"⟩

theorem Token.IsWord.isPunct_ident {t : Token} {w : Word} (h : t.IsWord w) (hkind : w.kind = .ident)
    (mark : String) : t.isPunct mark = false := by
  rw [h.isPunct_eq, Word.isPunct, hkind]
  rfl

theorem isDeclaration_class {name : String} {ps : List Piece} (h : isClassOutline name ps = true) :
    IsDeclaration ps fun m => m.name = name := by
  unfold isClassOutline at h
  split at h
  · rename_i g₁ k g₂ n g₃ inner g₄
    simp only [Word.isName, Bool.and_eq_true, beq_iff_eq, List.contains_iff_mem] at h
    obtain ⟨⟨hkind, hclass⟩, hident, hname⟩ := h
    refine ⟨List.cons_ne_nil _ _, fun ts us hts => ?_, fun ts hts _ s follow => ?_⟩
    · obtain ⟨t, u, o, vs, c, rfl, ht, hu, ho⟩ := matches_class hts
      have ht := ht.isPunct_ident hkind
      have hu := hu.isPunct_ident hident
      exact ⟨annotation?_leaf (ht "@") _, by simp [declaration, ht, hu, ho]⟩
    · obtain ⟨t, u, o, vs, c, rfl, ht, hu, ho⟩ := matches_class hts
      have hplain : ∀ v ∈ [TokenTree.leaf t, .leaf u], v.isPunct "\x7b" = false :=
        List.forall_mem_cons.2 ⟨ht.isPunct_ident hkind "\x7b",
          List.forall_mem_singleton.2 (hu.isPunct_ident hident "\x7b")⟩
      have hword : t.text ∈ classWords := by rwa [ht.text_eq]
      obtain ⟨m, hm, hrange, -, hm', -⟩ :=
        classify_of_class hword hplain ho s ⟨[.leaf t, .leaf u, .group o vs c], follow⟩
      exact ⟨m, hm, by rw [hrange], hm'.trans (hu.text_eq.trans hname)⟩
  · cases h

/-- A fixed source of a class. -/
theorem declares_class {name : String} {cs : List Char}
    (h : isTemplate (isClassOutline name) cs = true) :
    Declares (String.ofList cs) fun m => m.name = name := by
  obtain ⟨ps, htext, hsound, hclass⟩ := exists_outline h
  have hdecl := isDeclaration_class hclass
  exact ⟨ps, ⟨htext, hsound, hdecl.ne_nil⟩, hdecl⟩

/-! ## Functions -/

theorem nameTokens_of_no_dot {n : Token} {ts : List Token}
    (h : ∀ t ∈ ts.head?, t.isPunct "." = false) :
    nameTokens (n :: ts) = [n] := by
  rcases ts with _ | ⟨t, _ | ⟨u, us⟩⟩
  · rw [nameTokens]
  · rw [nameTokens]
  · rw [nameTokens, if_neg (by simp [h t rfl])]

/-- A function has the name in front of its parameters. -/
theorem name_functionMember {toks : List Token} {n : Token}
    (hdot : ∀ t ∈ toks.getLast?, t.isPunct "." = false) (s : Surroundings) (base : Member)
    (params : Range) (rest : List TokenTree) :
    (functionMember s base (leaves (toks ++ [n])) params rest).name =
      replaceChar ' ' "" n.text := by
  have hname : nameTokens (toks ++ [n]).reverse = [n] := by
    rw [List.reverse_append, List.reverse_singleton, List.singleton_append]
    exact nameTokens_of_no_dot (by rwa [List.head?_reverse])
  obtain ⟨t, ts, hcons⟩ := List.exists_cons_of_ne_nil
    (List.append_ne_nil_of_right_ne_nil toks (List.cons_ne_nil n []))
  rw [hcons] at hname ⊢
  simp only [functionMember, tokensOf_leaves, hname]
  rfl

/-- The outline of a function with a block. -/
def functionPieces (head : List (String × Word)) (params body : List Piece) (g : String) :
    List Piece :=
  rowOf head ++ [.group "" .round params "", .group " " .curly body g]

section Function

variable {head : List (String × Word)} {params body : List Piece} {g name : String}

theorem matches_functionPieces {w : String × Word} {ts : List TokenTree}
    (h : Matches ts (functionPieces (w :: head) params body g)) :
    ∃ toks o vs c p us d, ts = leaves toks ++ .group o vs c :: [.group p us d] ∧
      AreWords toks (w :: head) ∧ o.IsWord (.mark "(") ∧ p.IsWord (.mark "\x7b") := by
  obtain ⟨toks, us, rfl, htoks, hu⟩ := matches_rowOf_append h
  obtain ⟨o, vs, c, us, rfl, ho, -, -, -, hu⟩ := matches_group_cons.1 hu.matches
  obtain ⟨p, us, d, _, rfl, hp, -, -, -, hnil⟩ := matches_group_cons.1 hu.matches
  rw [showsAll_nil] at hnil
  subst hnil
  exact ⟨toks, o, vs, c, p, us, d, rfl, htoks, ho, hp⟩

theorem isPunct_of_plain {w : String × Word}
    (hplain : ∀ mark ∈ ["@", ";", "=", "=>", "(", "."], ∀ v ∈ w :: head, v.2.isPunct mark = false)
    (name : String) :
    ∀ mark ∈ ["@", ";", "=", "=>", "(", "."], ∀ v ∈ w :: (head ++ [(" ", Word.name name)]),
      v.2.isPunct mark = false := by
  intro mark hm v hv
  rw [← List.cons_append, List.mem_append, List.mem_singleton] at hv
  rcases hv with hv | rfl
  · exact hplain mark hm v hv
  · rfl

/-- A function ends with its block. -/
theorem cut_functionPieces {w : String × Word}
    (hplain : ∀ mark ∈ ["@", ";", "=", "=>", "(", "."], ∀ v ∈ w :: head, v.2.isPunct mark = false)
    {ts : List TokenTree} (hts : Matches ts (functionPieces (w :: head) params body g))
    (us : List TokenTree) :
    annotation? (ts ++ us) = none ∧ declaration false (ts ++ us) = (ts, us) := by
  obtain ⟨toks, o, vs, c, p, bs, d, rfl, htoks, ho, hp⟩ := matches_functionPieces hts
  have hround : o.isPunct "\x7b" = false := ho.isPunct_eq "\x7b"
  have hcurly : p.isPunct "\x7b" = true := hp.isPunct_eq "\x7b"
  constructor
  · obtain ⟨t, toks, ht, -, rfl⟩ := List.forall₂_cons_right_iff.1 htoks
    have hsign : t.isPunct "@" = false := by
      rw [ht.isPunct_eq]
      exact hplain "@" (by decide) w List.mem_cons_self
    exact annotation?_leaf hsign _
  · rw [List.append_assoc, declaration_leaves false htoks fun mark hm => hplain mark (by
      simp only [List.mem_cons] at hm ⊢
      tauto)]
    simp [declaration, hround, hcurly]

/-- No equality sign and no arrow stands outside of the brackets of a function. -/
theorem isPunct_of_functionPieces {toks : List Token} {ws : List (String × Word)}
    (htoks : AreWords toks ws) {o p c d : Token} {vs bs : List TokenTree}
    (ho : o.IsWord (.mark "(")) (hp : p.IsWord (.mark "\x7b"))
    (hplain : ∀ mark ∈ ["=", "=>"], ∀ v ∈ ws, v.2.isPunct mark = false) :
    ∀ mark ∈ ["=", "=>"], ∀ t ∈ leaves toks ++ .group o vs c :: [.group p bs d],
      t.isPunct mark = false := by
  intro mark hm t ht
  have hround := ho.isPunct_eq mark
  have hcurly := hp.isPunct_eq mark
  have hleaves := htoks.isPunct_eq_false (hplain mark hm)
  simp only [List.mem_append, List.mem_cons, List.not_mem_nil, or_false] at ht hm
  rcases ht with ht | rfl | rfl
  · exact hleaves t ht
  · rcases hm with rfl | rfl <;> exact hround
  · rcases hm with rfl | rfl <;> exact hcurly

/-- A function is told by its parameters, and has the last name in front of them. -/
theorem isDeclaration_function {w : String × Word}
    (hstart : w.2.text ∉ declarationWords ++ directiveWords)
    (hplain : ∀ mark ∈ ["@", ";", "=", "=>", "(", "."], ∀ v ∈ w :: head, v.2.isPunct mark = false)
    (hget : isGetless (functionPieces (w :: (head ++ [(" ", .name name)])) params body g) = true) :
    IsDeclaration (functionPieces (w :: (head ++ [(" ", .name name)])) params body g)
      fun m => m.name = replaceChar ' ' "" name := by
  have hall := isPunct_of_plain hplain name
  refine ⟨by simp [functionPieces], fun ts us hts => cut_functionPieces hall hts us,
    fun ts hts horder s follow => ?_⟩
  have hgetter := hts.noGetter (lacksGetter_of_isGetless hget)
  obtain ⟨toks, o, vs, c, p, bs, d, rfl, htoks, ho, hp⟩ := matches_functionPieces hts
  simp only [declarationWords, List.mem_append, not_or] at hstart
  have hmarks : ∀ mark ∈ ["=", "=>"], ∀ t ∈ leaves toks ++ .group o vs c :: [.group p bs d],
      t.isPunct mark = false :=
    isPunct_of_functionPieces htoks ho hp fun mark hm => hall mark (by
      simp only [List.mem_cons] at hm ⊢
      tauto)
  have hround : ∀ t ∈ leaves toks, t.isPunct "(" = false :=
    htoks.isPunct_eq_false (hall "(" (by decide))
  obtain ⟨before, last, rfl, hbefore, hlast⟩ := (List.cons_append .. ▸ htoks : AreWords toks
    ((w :: head) ++ [(" ", Word.name name)])).of_append
  obtain ⟨n, _, hn, hnil, rfl⟩ := List.forall₂_cons_right_iff.1 hlast
  obtain rfl := List.forall₂_nil_right_iff.1 hnil
  obtain ⟨t, before, ht, hrest, rfl⟩ := List.forall₂_cons_right_iff.1 hbefore
  have htext : t.text = w.2.text := ht.text_eq
  have hmods : modifiersOf (leaves (t :: before ++ [n]) ++ .group o vs c :: [.group p bs d]) =
      ([], leaves (t :: before ++ [n]) ++ .group o vs c :: [.group p bs d]) :=
    modifiersOf_leaf (by rw [htext]; exact hstart.1.2) _
  have hhead : headText (leaves (t :: before ++ [n]) ++ .group o vs c :: [.group p bs d]) ∉
      directiveWords ++ classWords := by
    have hfirst : headText (leaves (t :: before ++ [n]) ++ .group o vs c :: [.group p bs d]) =
        w.2.text :=
      htext
    rw [hfirst, List.mem_append, not_or]
    exact ⟨hstart.2, hstart.1.1⟩
  refine ⟨_, classify_of_function hmods (by simp) hhead (ho.isPunct_eq "(") hround hmarks horder
    hgetter, ?_, ?_⟩
  · unfold functionMember
    rfl
  · rw [name_functionMember, hn.text_eq]
    · rfl
    · intro u hu
      obtain ⟨v, hv, hword⟩ := hbefore.exists_word (List.mem_of_getLast? hu)
      rw [hword.isPunct_eq]
      exact hplain "." (by decide) v hv

end Function

/-! ## Texts of functions -/

/-- A text with an outline in which there is no getter. -/
def Getless (a : String) : Prop := ∃ ps, Spelt a ps ∧ isGetless ps = true

/-- A fixed source in which there is no getter. -/
theorem getless_ofList {cs : List Char}
    (h : isTemplate (fun ps => isGetless ps && !ps.isEmpty) cs = true) :
    Getless (String.ofList cs) := by
  obtain ⟨ps, htext, hsound, htest⟩ := exists_outline h
  rw [Bool.and_eq_true] at htest
  exact ⟨ps, ⟨htext, hsound, by simpa using htest.2⟩, htest.1⟩

theorem getless_string (a : String) : Getless (string a) := by
  have hspelt := (single_text a).spelt
  rw [Word.text_literal_text] at hspelt
  exact ⟨_, hspelt, rfl⟩

theorem Getless.append_soft {a b : String} (ha : Getless a) (hb : Getless b) {c : Char}
    (hc : b.toList.head? = some c) (hsoft : isSoft c = true) : Getless (a ++ b) := by
  obtain ⟨ps, hp, hps⟩ := ha
  obtain ⟨qs, hq, hqs⟩ := hb
  exact ⟨_, hp.append_soft hq hc hsoft, by rw [isGetless_append, hps, hqs, Bool.and_self]⟩

theorem Getless.lead {a : String} (h : Getless a) {g : String} (hg : isGap g = true) :
    Getless (g ++ a) := by
  obtain ⟨ps, hp, hps⟩ := h
  exact ⟨_, hp.lead hg, by rw [isGetless_leadWith, hps]⟩

/-- A block behind what it belongs to. -/
theorem Getless.block {a b : String} (ha : Getless a) (hb : Getless b) {g : String}
    (hg : isGap g = true) :
    Getless (a ++ (" " ++ "\x7b" ++ b ++ g ++ "\x7d")) := by
  obtain ⟨ps, hp, hps⟩ := hb
  have hcurly : Getless (" " ++ "\x7b" ++ b ++ g ++ "\x7d") :=
    ⟨_, spelt_group .curly hp.toList_eq hp.sound rfl hg, by rw [isGetless_group, hps]⟩
  exact ha.append_soft hcurly (c := ' ') (by simp) rfl

/-- A function whose parameters and block have no getter in them. -/
theorem declares_function {head name params body g : String} {w : String × Word}
    {ws : List (String × Word)} (hhead : Spelt head (rowOf (w :: ws))) (hname : isName name = true)
    (hstart : w.2.text ∉ declarationWords ++ directiveWords)
    (hplain : ∀ mark ∈ ["@", ";", "=", "=>", "(", "."], ∀ v ∈ w :: ws, v.2.isPunct mark = false)
    (hget : isGetless (rowOf (w :: (ws ++ [(" ", .name name)]))) = true)
    (hparams : Getless params) (hbody : Getless body) (hg : isGap g = true) :
    Declares (head ++ (" " ++ name) ++ ("(" ++ params ++ ")") ++ (" \x7b" ++ body ++ g ++ "\x7d"))
      fun m => m.name = replaceChar ' ' "" name := by
  obtain ⟨ps, hp, hps⟩ := hparams
  obtain ⟨qs, hq, hqs⟩ := hbody
  have hrow : Spelt (head ++ (" " ++ name)) (rowOf (w :: ws ++ [(" ", .name name)])) :=
    spelt_spaced hhead (single_name hname)
  have hround := hrow.append_soft (spelt_round hp.toList_eq hp.sound) (c := '(') (by simp) rfl
  have hcurly : Spelt (" \x7b" ++ body ++ g ++ "\x7d") [.group " " .curly qs g] :=
    spelt_group .curly hq.toList_eq hq.sound (g := " ") rfl hg
  have hspelt := hround.append_soft hcurly (c := ' ') (by simp) rfl
  refine ⟨_, hspelt, ?_⟩
  rw [List.append_assoc]
  refine isDeclaration_function hstart hplain ?_
  rw [functionPieces, isGetless_append, hget, ← List.singleton_append, isGetless_append,
    isGetless_group, isGetless_group, hps, hqs]
  rfl

end WidgetBridge.WidgetGrammar
