import WidgetBridge.Proofs.WidgetGrammar.Declaration

/-!
# Fields with their values

A field is a row of words, a sign of equality and a value (`fieldPieces`).  The words in front of
the value tell that it is one (`IsFieldHead`), and the value goes up to the first semicolon outside
of brackets:

* `isDeclaration_value` gives the member of a field with any value;
* `declares_final` is the case of a name that is given its value once.
-/

namespace WidgetBridge.WidgetGrammar

open WidgetBridge.Text

/-! ## Outlines of fields -/

/-- The sign of equality. -/
def equality : Word := .mark "="

/-- The semicolon. -/
def semicolon : Word := .mark ";"

theorem single_equality : equality.Single := single_mark (by decide) rfl rfl

theorem single_semicolon : semicolon.Single := single_mark (by decide) rfl rfl

/-- The words in front of the value of a field: modifiers, and what they modify. -/
structure IsFieldHead (mws dws : List (String × Word)) : Prop where
  modifiers : ∀ w ∈ mws, (w.2.kind == .ident) = true ∧ w.2.text ∈ modifierWords
  start : ∀ w ∈ dws.head?, w.2.text ∉ declarationWords ++ directiveWords
  ne_nil : dws ≠ []
  plain : ∀ mark ∈ ["@", ";", "=", "=>", "("], ∀ w ∈ mws ++ dws, w.2.isPunct mark = false
  lacksGetter : lacksGetter (dws.map (·.2)) = true

/-- The outline of a field with its value. -/
def fieldPieces (head : List (String × Word)) (ps : List Piece) : List Piece :=
  rowOf head ++ .word " " equality :: (leadWith " " ps ++ [.word "" semicolon])

theorem spelt_field {head value : String} {hws : List (String × Word)} {ps : List Piece}
    (hhead : Spelt head (rowOf hws)) (hvalue : Spelt value ps) :
    Spelt (head ++ " = " ++ value ++ ";") (fieldPieces hws ps) := by
  have hspace := spelt_word single_equality.stands single_equality.not_bracket (g := " ") rfl
  have hend := (hvalue.lead (g := " ") rfl).append_soft single_semicolon.spelt (c := ';') rfl rfl
  have hassign := hspace.append_soft hend (c := ' ') (by simp) rfl
  have hall := hhead.append_soft hassign (c := ' ') (by simp) rfl
  have htext : head ++ (" " ++ equality.text ++ (" " ++ value ++ semicolon.text)) =
      head ++ " = " ++ value ++ ";" := by
    rw [← String.toList_inj]
    simp [equality, semicolon, Word.mark]
  rw [htext] at hall
  exact hall

/-- A row of words with one more word behind a space. -/
theorem spelt_spaced {a : String} {ws : List (String × Word)} (h : Spelt a (rowOf ws)) {w : Word}
    (hw : w.Single) : Spelt (a ++ (" " ++ w.text)) (rowOf (ws ++ [(" ", w)])) := by
  have hspelt :=
    h.append_soft (spelt_word hw.stands hw.not_bracket (g := " ") rfl) (c := ' ') (by simp) rfl
  rwa [rowOf, List.map_append]

/-- A word and a name behind it. -/
theorem spelt_wordName {word name : String} (hword : isName word = true)
    (hname : isName name = true) :
    Spelt (word ++ " " ++ name) (rowOf [("", .name word), (" ", .name name)]) := by
  have hfirst : Spelt (Word.name word).text (rowOf [("", .name word)]) := (single_name hword).spelt
  have hspelt := spelt_spaced hfirst (single_name hname)
  rw [← String.append_assoc] at hspelt
  exact hspelt

/-! ## Cutting off a field -/

theorem modifiersOf_append {mods : List Token}
    (h : ∀ t ∈ mods, t.isIdent = true ∧ t.text ∈ modifierWords) {t : Token}
    (ht : t.text ∉ modifierWords) (ts : List TokenTree) :
    modifiersOf (leaves mods ++ .leaf t :: ts) = (mods, .leaf t :: ts) := by
  induction mods with
  | nil => exact modifiersOf_leaf ht ts
  | cons u mods ih =>
    rw [List.forall_mem_cons] at h
    have hleaves : leaves (u :: mods) ++ .leaf t :: ts =
      .leaf u :: (leaves mods ++ .leaf t :: ts) := rfl
    rw [hleaves, modifiersOf, if_pos (by simp [h.1]), ih h.2]

theorem annotation?_leaf {t : Token} (h : t.isPunct "@" = false) (ts : List TokenTree) :
    annotation? (.leaf t :: ts) = none := by
  rcases ts with _ | ⟨u | ⟨o, inner, c⟩, us⟩
  · rfl
  · simp [annotation?, h]
  · rfl

/-- A value goes up to the first semicolon outside of brackets. -/
theorem declaration_value {ps : List Piece} (hps : lacks ";" ps = true) {vs : List TokenTree}
    (hvs : ShowsAll vs ps) {e : Token} (he : e.isPunct ";" = true) (us : List TokenTree) :
    declaration true (vs ++ .leaf e :: us) = (vs ++ [.leaf e], us) := by
  induction ps generalizing vs with
  | nil =>
    rw [showsAll_nil] at hvs
    subst hvs
    simp [declaration, he]
  | cons p ps ih =>
    cases p with
    | word g w =>
      obtain ⟨t, vs, rfl, ht, hvs⟩ := matches_word_cons.1 hvs.matches
      rw [lacks_word_cons, Bool.and_eq_true] at hps
      have hend : t.isPunct ";" = false := by simpa [ht.isPunct_eq] using hps.1
      simp [declaration, hend, ih hps.2 hvs]
    | group g b inner g' =>
      obtain ⟨o, ws, c, vs, rfl, -, -, -, -, hvs⟩ := matches_group_cons.1 hvs.matches
      simp [declaration, ih hps hvs]

section Field

variable {mws dws : List (String × Word)} {ps : List Piece} {ts vs : List TokenTree}
    {mods toks : List Token}
  {eq e : Token}

/-- The forest of a field with its value. -/
theorem matches_fieldPieces (hne : mws ++ dws ≠ []) (h : Matches ts (fieldPieces (mws ++ dws) ps)) :
    ∃ mods toks eq vs e,
      ts = leaves mods ++ (leaves toks ++ .leaf eq :: (vs ++ [.leaf e])) ∧ AreWords mods mws ∧
      AreWords toks dws ∧ eq.IsWord equality ∧ ShowsAll vs (leadWith " " ps) ∧
        e.IsWord semicolon := by
  obtain ⟨w, ws, hcons⟩ := List.exists_cons_of_ne_nil hne
  rw [fieldPieces, hcons] at h
  obtain ⟨all, us, rfl, hall, hus⟩ := matches_rowOf_append h
  rw [← hcons] at hall
  obtain ⟨eq, us, rfl, heq, hus⟩ := matches_word_cons.1 hus.matches
  obtain ⟨vs, us, rfl, hvs, hlast⟩ := showsAll_append.1 hus
  obtain ⟨e, us, rfl, he, hnil⟩ := matches_word_cons.1 hlast.matches
  obtain ⟨mods, toks, rfl, hmods, htoks⟩ := hall.of_append
  refine ⟨mods, toks, eq, vs, e, ?_, hmods, htoks, heq, hvs, he⟩
  rw [showsAll_nil.1 hnil, leaves, List.map_append, List.append_assoc]
  rfl

/-- A field ends where it should, whatever follows it. -/
theorem cut_field (h : IsFieldHead mws dws) (hmods : AreWords mods mws) (htoks : AreWords toks dws)
    (heq : eq.IsWord equality) (he : e.IsWord semicolon) (hps : lacks ";" ps = true)
    (hvs : ShowsAll vs (leadWith " " ps)) (us : List TokenTree) :
    let ts := leaves mods ++ (leaves toks ++ .leaf eq :: (vs ++ [.leaf e]))
    annotation? (ts ++ us) = none ∧ declaration false (ts ++ us) = (ts, us) := by
  have hall : AreWords (mods ++ toks) (mws ++ dws) := List.rel_append hmods htoks
  have hts : leaves mods ++ (leaves toks ++ .leaf eq :: (vs ++ [.leaf e])) ++ us =
      leaves (mods ++ toks) ++ .leaf eq :: (vs ++ .leaf e :: us) := by
    simp [leaves]
  have hassigned : eq.isPunct "=" = true := heq.isPunct_eq "="
  have hend : eq.isPunct ";" = false := heq.isPunct_eq ";"
  dsimp only
  rw [hts]
  constructor
  · have hsign := hall.isPunct_eq_false (h.plain "@" (by decide))
    cases hcons : mods ++ toks with
    | nil =>
      rw [hcons] at hall
      have hnil := List.forall₂_nil_left_iff.1 hall
      exact absurd (List.append_eq_nil_iff.1 hnil).2 h.ne_nil
    | cons t rest =>
      rw [hcons] at hsign
      exact annotation?_leaf (hsign (.leaf t) List.mem_cons_self) _
  · rw [declaration_leaves false hall fun mark hm => h.plain mark (by
      simp only [List.mem_cons] at hm ⊢
      tauto), declaration, if_neg (by simp [hend]), hassigned, Bool.or_true, Bool.true_or,
      declaration_value (by rw [lacks_leadWith, hps]) hvs (he.isPunct_eq ";")]
    simp [leaves]

/-- A field is classified by the words in front of its value. -/
theorem classify_fieldPieces (h : IsFieldHead mws dws) (hmods : AreWords mods mws)
    (htoks : AreWords toks dws) (heq : eq.IsWord equality)
    (horder : InOrder (leaves mods ++ (leaves toks ++ .leaf eq :: (vs ++ [.leaf e]))))
    (s : Surroundings) (range : Range) :
    classify s range [] (leaves mods ++ (leaves toks ++ .leaf eq :: (vs ++ [.leaf e]))) =
      .ok (fieldMember (s.after mods)
        { kind := .other, name := "", range, modifiers := mods.map Token.text }
        (leaves toks ++ .leaf eq :: (vs ++ [.leaf e]))) := by
  obtain ⟨w, ws, hcons⟩ := List.exists_cons_of_ne_nil h.ne_nil
  have hstart := h.start w (by rw [hcons]; rfl)
  have hplain : ∀ mark ∈ ["=", "=>", "("], ∀ t ∈ leaves toks, t.isPunct mark = false :=
      fun mark hm =>
    htoks.isPunct_eq_false fun w hw => h.plain mark (by simp only [List.mem_cons] at hm ⊢; tauto) w
      (List.mem_append_right _ hw)
  have hgetter : NoGetter eq.index (TokenTree.tokensOf (leaves toks) ++ [eq]) := by
    have hwords : AreWords (toks ++ [eq]) (dws ++ [("", equality)]) :=
      List.rel_append htoks (.cons heq .nil)
    rw [tokensOf_leaves]
    refine noGetter_of_words hwords ?_ _
    rw [List.map_append, List.map_singleton, lacksGetter_append _ rfl, h.lacksGetter]
    rfl
  obtain ⟨t, rest, ht, hrest, rfl⟩ := List.forall₂_cons_right_iff.1 (hcons ▸ htoks)
  have htext : t.text = w.2.text := ht.text_eq
  simp only [declarationWords, List.mem_append, not_or] at hstart
  have hmodifiers : modifiersOf
      (leaves mods ++ (leaves (t :: rest) ++ .leaf eq :: (vs ++ [.leaf e]))) =
      (mods, leaves (t :: rest) ++ .leaf eq :: (vs ++ [.leaf e])) := by
    refine modifiersOf_append (fun u hu => ?_) (by rw [htext]; exact hstart.1.2) _
    obtain ⟨v, hv, hword⟩ := hmods.exists_word hu
    rw [hword.isIdent_eq, hword.text_eq]
    exact h.modifiers v hv
  have hhead : headText (leaves (t :: rest) ++ .leaf eq :: (vs ++ [.leaf e])) ∉
      directiveWords ++ classWords := by
    have : headText (leaves (t :: rest) ++ .leaf eq :: (vs ++ [.leaf e])) = w.2.text := htext
    rw [this, List.mem_append, not_or]
    exact ⟨hstart.2, hstart.1.1⟩
  exact classify_of_field hmodifiers (by simp) hhead
    (heq.isPunct_eq "=") hplain horder.right hgetter

/-- A field has the last name of its first part, the type before this name, and its value. -/
theorem fieldMember_eq {declared : List TokenTree}
    (hdeclared : ∀ t ∈ declared, t.isPunct "=" = false) (heq : eq.isPunct "=" = true)
    (he : e.isPunct ";" = true) {part : Range} {parts : List Range}
    (hparts : (Range.mk declared none).splitTop "," = part :: parts) {n : Token}
    (hn : part.last? = some n) (s : Surroundings) (base : Member) :
    fieldMember s base (declared ++ .leaf eq :: (vs ++ [.leaf e])) =
      { base with
        kind := .field, name := n.text
        typeText := TokenTree.textOfTokens
          ((TokenTree.tokensOf (declared ++ .leaf eq :: (vs ++ [.leaf e]))).takeWhile
            fun t => t.index < n.index)
        initializer := some ⟨vs, some e⟩ } := by
  have hcut : Range.cutTop? "=" (declared ++ .leaf eq :: (vs ++ [.leaf e])) =
      some (declared, .leaf eq, vs ++ [.leaf e]) :=
    cutTop?_append_cons hdeclared (.leaf eq) heq _
  have hsemicolon : (Range.mk (vs ++ [.leaf e]) s.follow).withoutSemicolon = ⟨vs, some e⟩ := by
    simp [Range.withoutSemicolon, he]
  simp [fieldMember, hcut, hparts, hn, hsemicolon]

/-- What holds of each field with such words in front of such a value holds of the declaration. -/
theorem isDeclaration_value (h : IsFieldHead mws dws) (hps : lacks ";" ps = true)
    {P : Member → Prop}
    (hP : ∀ (mods toks : List Token) (eq e : Token) (vs : List TokenTree) (range : Range)
      (s : Surroundings), AreWords mods mws → AreWords toks dws → eq.IsWord equality →
      ShowsAll vs (leadWith " " ps) → e.IsWord semicolon →
      range.trees = leaves mods ++ (leaves toks ++ .leaf eq :: (vs ++ [.leaf e])) →
        InOrder range.trees →
      P (fieldMember s { kind := .other, name := "", range, modifiers := mods.map Token.text }
        (leaves toks ++ .leaf eq :: (vs ++ [.leaf e])))) :
    IsDeclaration (fieldPieces (mws ++ dws) ps) P := by
  have hne : mws ++ dws ≠ [] := List.append_ne_nil_of_right_ne_nil mws h.ne_nil
  refine ⟨by simp [fieldPieces], fun ts us hts => ?_, fun ts hts horder s follow => ?_⟩
  · obtain ⟨mods, toks, eq, vs, e, rfl, hmods, htoks, heq, hvs, he⟩ := matches_fieldPieces hne hts
    exact cut_field h hmods htoks heq he hps hvs us
  · obtain ⟨mods, toks, eq, vs, e, rfl, hmods, htoks, heq, hvs, he⟩ := matches_fieldPieces hne hts
    exact ⟨_, classify_fieldPieces h hmods htoks heq horder s _, rfl,
      hP mods toks eq e vs _ _ hmods htoks heq hvs he rfl horder⟩

end Field

/-! ## Names with a value -/

/-- A member that gives a name the value of an outline. -/
structure Assigns (name : String) (ps : List Piece) (m : Member) : Prop where
  name_eq : m.name = name
  trees : ∃ toks vs e, m.range.trees = leaves toks ++ (vs ++ [.leaf e]) ∧
    AreWords toks [("", .name "final"), (" ", .name name), (" ", equality)] ∧ Matches vs ps ∧
    m.initializer = some ⟨vs, some e⟩

theorem isFieldHead_final {name : String} (hfree : name ∉ declarationWords ++ directiveWords) :
    IsFieldHead [("", .name "final")] [(" ", .name name)] := by
  refine ⟨?_, ?_, List.cons_ne_nil _ _, ?_, rfl⟩
  · simp [Word.name, modifierWords]
  · rintro w ⟨⟩
    exact hfree
  · simp [Word.isPunct, Word.name]

theorem declares_final {name value : String} {ps : List Piece} (hname : isName name = true)
    (hfree : name ∉ declarationWords ++ directiveWords) (hs : Spelt value ps)
    (hps : lacks ";" ps = true) :
    Declares ("final " ++ name ++ " = " ++ value ++ ";") (Assigns name ps) := by
  have hhead := isFieldHead_final hfree
  have hspelt := spelt_field (spelt_wordName (by decide : isName "final" = true) hname) hs
  refine ⟨_, hspelt, isDeclaration_value hhead hps ?_⟩
  intro mods toks eq e vs range s hmods htoks heq hvs he htrees _
  obtain ⟨n, _, hn, hnil, rfl⟩ := List.forall₂_cons_right_iff.1 htoks
  obtain rfl := List.forall₂_nil_right_iff.1 hnil
  have hplain : ∀ mark, ∀ t ∈ leaves [n], t.isPunct mark = false := fun mark =>
    htoks.isPunct_eq_false (List.forall_mem_singleton.2 rfl)
  have hparts := splitTop_leaves (hplain ",") (List.cons_ne_nil _ _) none
  rw [fieldMember_eq (hplain "=") (heq.isPunct_eq "=") (he.isPunct_eq ";") hparts (n := n) rfl]
  refine ⟨hn.text_eq, mods ++ [n, eq], vs, e, ?_, List.rel_append hmods (.cons hn (.cons heq .nil)),
    matches_leadWith.1 hvs.matches, rfl⟩
  rw [htrees]
  simp [leaves]

end WidgetBridge.WidgetGrammar
