import WidgetBridge.Proofs.State.SettingMethod

/-!
# Fields of state

A field with its value, read back from its source as a member of a class.  A field has its name and
its value (`declares_field`), unless there is a comma in its type: a field of objects is taken for
another one (`declares_objectField`).
-/

namespace WidgetBridge.State

open WidgetBridge.Text WidgetBridge.WidgetGrammar

/-! ## Fields of state -/

/-- A field that belongs to an instance and calls nothing. -/
structure IsField (name : String) (m : Member) : Prop where
  kind_eq : m.kind = .field
  name_eq : m.name = name
  not_fixed : "static" ∉ m.modifiers ∧ "const" ∉ m.modifiers
  leafFirst : LeafFirst m.range.trees
  closures_eq : closuresIn m.range.trees = .ok []

section Field

variable {mws dws : List (String × Word)} {ps : List Piece}

theorem not_of_isDatum {w : Word} (h : w.isDatum = true) :
    w.isPunct ";" = false ∧ (w.kind == .ident && w.text == "setState") = false := by
  rw [Word.isDatum] at h
  rw [Word.isPunct]
  cases hkind : w.kind with
  | ident =>
    rw [hkind] at h
    refine ⟨rfl, ?_⟩
    rw [Bool.and_eq_false_iff]
    refine Or.inr ?_
    rw [beq_eq_false_iff_ne]
    intro htext
    rw [htext] at h
    revert h
    decide
  | punct =>
    rw [hkind] at h
    exact ⟨by simpa using h, rfl⟩
  | _ => exact ⟨rfl, rfl⟩

/-- There is no semicolon in data. -/
theorem lacks_of_isDatum (h : ∀ w ∈ wordsOf ps, w.2.isDatum = true) : lacks ";" ps = true := by
  induction ps with
  | nil => rfl
  | cons p ps ih =>
    rw [wordsOf_cons] at h
    have ih := ih fun w hw => h w (List.mem_append_right _ hw)
    cases p with
    | word g w =>
      have hw := not_of_isDatum (h (g, w) (List.mem_append_left _ (List.mem_singleton_self _)))
      simp [hw.1, ih]
    | group g b inner g' => exact ih

theorem not_setState_of_shows {vs : List TokenTree} (hdata : ∀ w ∈ wordsOf ps, w.2.isDatum = true)
    (hvs : ShowsAll vs (leadWith " " ps)) {t : Token} (ht : t ∈ TokenTree.tokensOf vs) :
    t.isName "setState" = false := by
  obtain ⟨w, hw, hword⟩ := hvs.isWord_of_mem ht
  have hmem : w.2 ∈ (wordsOf ps).map (·.2) := by
    rw [← map_wordsOf_leadWith " "]
    exact List.mem_map_of_mem hw
  obtain ⟨v, hv, hvw⟩ := List.mem_map.1 hmem
  rw [hword.isName_eq, ← hvw]
  exact (not_of_isDatum (hdata v hv)).2

variable {mods toks : List Token} {eq e : Token} {vs : List TokenTree}

theorem closuresIn_field (all : List Token) (heq : eq.IsWord equality) (he : e.IsWord semicolon)
    (hvs : ∀ t ∈ TokenTree.tokensOf vs, t.isName "setState" = false) :
    closuresIn (leaves all ++ .leaf eq :: (vs ++ [.leaf e])) = .ok [] := by
  have hrest : argumentsOf "setState" (.leaf eq :: (vs ++ [.leaf e])) = [] := by
    refine argumentsOf_eq_nil fun t ht => ?_
    simp only [TokenTree.tokensOf, TokenTree.tokens, tokensOf_append, List.mem_append,
      List.mem_singleton, List.not_mem_nil, or_false] at ht
    rcases ht with rfl | ht | rfl
    · exact heq.isName_eq "setState"
    · exact hvs t ht
    · exact he.isName_eq "setState"
  rw [closuresIn, argumentsOf_append _ _ (leafFirst_cons eq _), argumentsOf_leaves, hrest]
  rfl

theorem leafFirst_leaves_append (all : List Token) {us : List TokenTree} (h : LeafFirst us) :
    LeafFirst (leaves all ++ us) := by
  cases all with
  | nil => exact h
  | cons t rest => exact leafFirst_cons t _

/-- What holds of each field with such words in front of its value holds of the declaration. -/
theorem isDeclaration_field (h : IsFieldHead mws dws) (hdata : ∀ w ∈ wordsOf ps, w.2.isDatum = true)
    {P : Member → Prop}
    (hP : ∀ (mods toks : List Token) (eq e : Token) (vs : List TokenTree) (range : Range)
      (s : Surroundings), AreWords mods mws → AreWords toks dws → eq.IsWord equality →
        Matches vs ps →
      e.IsWord semicolon → InOrder (leaves toks ++ .leaf eq :: (vs ++ [.leaf e])) →
      LeafFirst range.trees → closuresIn range.trees = .ok [] →
      P (fieldMember s { kind := .other, name := "", range, modifiers := mods.map Token.text }
        (leaves toks ++ .leaf eq :: (vs ++ [.leaf e])))) :
    IsDeclaration (fieldPieces (mws ++ dws) ps) P := by
  refine isDeclaration_value h (lacks_of_isDatum hdata) ?_
  intro mods toks eq e vs range s hmods htoks heq hvs he htrees horder
  rw [htrees] at horder
  have hleaf : LeafFirst range.trees := by
    rw [htrees]
    exact leafFirst_leaves_append mods (leafFirst_leaves_append toks (leafFirst_cons eq _))
  have hclosures : closuresIn range.trees = .ok [] := by
    have hall := closuresIn_field (mods ++ toks) heq he fun t ht =>
      not_setState_of_shows hdata hvs ht
    rwa [leaves, List.map_append, List.append_assoc, ← leaves, ← leaves, ← htrees] at hall
  exact hP mods toks eq e vs range s hmods htoks heq (matches_leadWith.1 hvs.matches) he
    horder.right hleaf
    hclosures

/-- A field with its type and its value. -/
structure IsStateField (name type : String) (v : Value) (m : Member) :
    Prop extends IsField name m where
  type_eq : m.typeText = type
  initial : ∃ r e, m.initializer = some r ∧ r.expr = .ok e ∧ e.toProp = .literal v

/-- Data that is written is read as it is. -/
theorem exists_pieces_ofValue {v : Value} (h : Exact v) :
    ∃ ps, Spelt (ofValue v) ps ∧ (∀ w ∈ wordsOf ps, w.2.isDatum = true) ∧
      ∀ ts, Matches ts ps → ∀ follow, ∃ e, (Range.mk ts follow).expr = .ok e ∧
        e.toProp = .literal v := by
  obtain ⟨ps, hs, -, hm⟩ := reads_ofValue v h
  refine ⟨ps, hs, hs.isDatum h, fun ts hts follow => ?_⟩
  obtain ⟨e, he, -, hwrites⟩ :=
    hm ts hts follow (3 * TokenTree.sizeOf' ts + 3) (by dsimp only; omega)
  have hconst : constant? e = some v := hwrites
  exact ⟨e, he, by rw [Expr.toProp, hconst]⟩

/-- The tokens in front of a token of an ordered forest. -/
theorem takeWhile_index_lt {before after : List Token} {n : Token}
    (h : (before ++ n :: after).Pairwise fun t u => t.index < u.index) :
    ((before ++ n :: after).takeWhile fun t => t.index < n.index) = before := by
  rw [List.takeWhile_append_of_pos, List.takeWhile_cons_of_neg (by simp), List.append_nil]
  intro t ht
  simpa using (List.pairwise_append.1 h).2.2 t ht n List.mem_cons_self

section Heads

variable {name type head : String} {v : Value} {pre : List (String × Word)}

/-- A field in whose type there is no comma has the name and the type in which it is written. -/
theorem declares_field (hhead : IsFieldHead mws (pre ++ [(" ", .name name)]))
    (hspelt : Spelt head (rowOf (mws ++ (pre ++ [(" ", .name name)]))))
    (hfixed : ∀ w ∈ mws, w.2.text ≠ "static" ∧ w.2.text ≠ "const")
    (hcomma : ∀ w ∈ pre, w.2.isPunct "," = false)
    (htype : ∀ toks, AreWords toks pre → TokenTree.textOfTokens toks = type) (hv : Exact v) :
    Declares (head ++ " = " ++ ofValue v ++ ";") (IsStateField name type v) := by
  obtain ⟨ps, hs, hdata, hread⟩ := exists_pieces_ofValue hv
  refine ⟨_, spelt_field hspelt hs, isDeclaration_field hhead hdata ?_⟩
  intro mods toks eq e vs range s hmods htoks heq hvs he horder hleaf hclosures
  have hplain := htoks.isPunct_eq_false (s := "=") fun w hw =>
    hhead.plain "=" (by decide) w (List.mem_append_right _ hw)
  have hnone := htoks.isPunct_eq_false (s := ",") (by
    simpa [or_imp, forall_and, Word.isPunct, Word.name] using hcomma)
  obtain ⟨before, last, rfl, hbefore, hlast⟩ := htoks.of_append
  obtain ⟨n, _, hn, hnil, rfl⟩ := List.forall₂_cons_right_iff.1 hlast
  obtain rfl := List.forall₂_nil_right_iff.1 hnil
  have hparts :=
    splitTop_leaves hnone (List.append_ne_nil_of_right_ne_nil before (List.cons_ne_nil n []))
    none
  have htokens : TokenTree.tokensOf (leaves (before ++ [n]) ++ .leaf eq :: (vs ++ [.leaf e])) =
      before ++ n :: TokenTree.tokensOf (.leaf eq :: (vs ++ [.leaf e])) := by
    rw [tokensOf_append, tokensOf_leaves, List.append_assoc]
    rfl
  rw [InOrder, htokens] at horder
  rw [fieldMember_eq hplain (heq.isPunct_eq "=") (he.isPunct_eq ";") hparts (n := n)
    (by simp [Range.last?, leaves, TokenTree.last]), htokens, takeWhile_index_lt horder]
  obtain ⟨x, hx, hprop⟩ := hread vs hvs (some e)
  have hfree : ∀ word, (∀ w ∈ mws, w.2.text ≠ word) → word ∉ mods.map Token.text := by
    intro word hword hmem
    obtain ⟨t, ht, htext⟩ := List.mem_map.1 hmem
    obtain ⟨w, hw, hwt⟩ := hmods.exists_word ht
    exact hword w hw (hwt.text_eq ▸ htext)
  exact ⟨⟨rfl, hn.text_eq,
    ⟨hfree _ fun w hw => (hfixed w hw).1, hfree _ fun w hw => (hfixed w hw).2⟩, hleaf, hclosures⟩,
    htype before hbefore, _, x, rfl, hx, hprop⟩

theorem declares_typedField (htype : isName type = true)
    (hfree : type ∉ declarationWords ++ directiveWords) (hget : type ≠ "get")
    (hname : isName name = true) (hv : Exact v) :
    Declares (type ++ " " ++ name ++ " = " ++ ofValue v ++ ";") (IsStateField name type v) := by
  have hhead : IsFieldHead [] ([("", .name type)] ++ [(" ", .name name)]) := by
    refine ⟨by simp, ?_, List.cons_ne_nil _ _, ?_, ?_⟩
    · rintro w ⟨⟩
      exact hfree
    · simp [Word.isPunct, Word.name]
    · simp [lacksGetter, Word.name, hget]
  refine declares_field hhead (spelt_wordName htype hname) (by simp) ?_ ?_ hv
  · simp [Word.isPunct, Word.name]
  · intro toks htoks
    obtain ⟨t, _, ht, hnil, rfl⟩ := List.forall₂_cons_right_iff.1 htoks
    obtain rfl := List.forall₂_nil_right_iff.1 hnil
    exact ht.text_eq

/-- A field without a type. -/
theorem declares_varField (hname : isName name = true)
    (hfree : name ∉ declarationWords ++ directiveWords) (hv : Exact v) :
    Declares ("var " ++ name ++ " = " ++ ofValue v ++ ";") (IsStateField name "" v) := by
  have hhead : IsFieldHead [("", .name "var")] ([] ++ [(" ", .name name)]) := by
    refine ⟨?_, ?_, List.cons_ne_nil _ _, ?_, rfl⟩
    · simp [Word.name, modifierWords]
    · rintro w ⟨⟩
      exact hfree
    · simp [Word.isPunct, Word.name]
  refine declares_field hhead (spelt_wordName (by decide : isName "var" = true) hname) ?_
    (by simp) ?_ hv
  · simp [Word.name]
  · intro toks htoks
    obtain rfl := List.forall₂_nil_right_iff.1 htoks
    rfl

/-- A field of objects is taken for a field with the name of the type of its keys: the field is cut
at the comma of its type. -/
theorem declares_objectField (hname : isName name = true) (hv : Exact v) :
    Declares ("Map<String, dynamic> " ++ name ++ " = " ++ ofValue v ++ ";") (IsField "String") := by
  obtain ⟨ps, hs, hdata, -⟩ := exists_pieces_ofValue hv
  have hhead : IsFieldHead [] (objectHead name) := by
    refine ⟨by simp, ?_, List.cons_ne_nil _ _, ?_, ?_⟩
    · rintro w ⟨⟩
      decide
    · simp [objectHead, Word.isPunct, Word.name, Word.mark, comma]
    · simp [objectHead, lacksGetter, Word.name, Word.mark, comma]
  refine ⟨_, spelt_field (spelt_objectHead hname) hs, isDeclaration_field hhead hdata ?_⟩
  intro mods toks eq e vs range s hmods htoks heq hvs he horder hleaf hclosures
  have hplain := htoks.isPunct_eq_false (s := "=") (hhead.plain "=" (by decide))
  obtain rfl := List.forall₂_nil_right_iff.1 hmods
  obtain ⟨a, _, ha, h₁, rfl⟩ := List.forall₂_cons_right_iff.1 htoks
  obtain ⟨b, _, hb, h₂, rfl⟩ := List.forall₂_cons_right_iff.1 h₁
  obtain ⟨c, _, hc, h₃, rfl⟩ := List.forall₂_cons_right_iff.1 h₂
  obtain ⟨d, rest, hd, -, rfl⟩ := List.forall₂_cons_right_iff.1 h₃
  have hcut : a.isPunct "," = false ∧ b.isPunct "," = false ∧ c.isPunct "," = false ∧
      d.isPunct "," = true :=
    ⟨ha.isPunct_eq ",", hb.isPunct_eq ",", hc.isPunct_eq ",", hd.isPunct_eq ","⟩
  have hparts : (Range.mk (leaves (a :: b :: c :: d :: rest)) none).splitTop "," =
      ⟨[.leaf a, .leaf b, .leaf c], some d⟩ :: Range.splitFrom "," none [] (leaves rest) := by
    simp [Range.splitTop, Range.splitFrom, leaves, hcut]
  rw [fieldMember_eq hplain (heq.isPunct_eq "=") (he.isPunct_eq ";") hparts (n := c) rfl]
  exact ⟨rfl, hc.text_eq, by simp, hleaf, hclosures⟩

end Heads

end Field

end WidgetBridge.State
