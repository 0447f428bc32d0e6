import WidgetBridge.Proofs.Number.Numeral
import WidgetBridge.Proofs.WidgetGrammar.Phrase
import WidgetBridge.WidgetGrammar.Expr

/-!
# Texts that are read as expressions

`Reads a P` says that the text `a` is read as an expression with the property `P`, wherever it
stands between commas.  There is one rule for each form that is written: text literals, integers,
names, lists, maps, calls and closures.  The rules for calls and lists take listings, so that they
hold for each layout of their arguments and items.
-/

namespace WidgetBridge.WidgetGrammar

open WidgetBridge.Text WidgetBridge.Number

/-- A range that is read as an expression with a property, given enough fuel. -/
def ReadsAs (P : Expr → Prop) (r : Range) : Prop :=
  ∀ fuel, 3 * TokenTree.sizeOf' r.trees + 1 ≤ fuel → ∃ e, exprOf fuel r = .ok e ∧ e.range = r ∧ P e

/-- A text that is read as an expression with a property. -/
abbrev Reads (a : String) (P : Expr → Prop) : Prop := Phrase a (ReadsAs P)

theorem Reads.imp {a : String} {P P' : Expr → Prop} (h : Reads a P) (hP : ∀ e, P e → P' e) :
    Reads a P' :=
  Phrase.imp h fun _ hr fuel hf =>
    let ⟨e, he, hrange, hp⟩ := hr fuel hf
    ⟨e, he, hrange, hP e hp⟩

theorem sizeOf'_pos {ts : List TokenTree} (h : ts ≠ []) : 0 < TokenTree.sizeOf' ts := by
  obtain ⟨t, us, rfl⟩ := List.exists_cons_of_ne_nil h
  cases t <;> simp only [TokenTree.sizeOf', TokenTree.size] <;> omega

/-- Without a leading `const` the forms of expressions are told apart one after the other. -/
theorem exprOf_succ {r : Range} (hne : r.trees ≠ [])
    (hc : dropConst r.trees = r.trees ∨ dropConst r.trees = []) (fuel : Nat) :
    exprOf (fuel + 1) r =
      match literalTokens? r.trees with
      | some ts => .ok (.string r (mergeParts (ts.flatMap fun t => t.lexeme.parts)))
      | none =>
        match atom? r.trees with
        | some v => do return .literal r (← v)
        | none => shapeExpr fuel r (shapeOf r.trees) := by
  have hempty : r.isEmpty = false := by simpa [Range.isEmpty] using hne
  have hbare : (!(dropConst r.trees).isEmpty &&
      decide ((dropConst r.trees).length < r.trees.length)) = false := by
    rcases hc with h | h <;> simp [h]
  rw [exprOf, hempty, if_neg Bool.false_ne_true]
  dsimp only
  rw [hbare]
  exact if_neg Bool.false_ne_true

theorem dropConst_leaf {t : Token} (h : t.isName "const" = false ∧ t.isName "new" = false)
    (ts : List TokenTree) : dropConst (.leaf t :: ts) = .leaf t :: ts := by
  simp [dropConst, h.1, h.2]

/-- Whether a name is neither of the two that may stand in front of a constructor. -/
def isCallable (s : String) : Bool := isName s && s != "const" && s != "new"

theorem Token.IsWord.not_const {t : Token} {w : Word} (h : t.IsWord w)
    (hw : w.kind = .ident → w.text ≠ "const" ∧ w.text ≠ "new") :
    t.isName "const" = false ∧ t.isName "new" = false := by
  rw [h.isName_eq, h.isName_eq]
  by_cases hk : w.kind = .ident
  · simp [hw hk]
  · simp [hk]

/-! ## Words -/

/-- A single word that can stand alone as an expression. -/
structure Word.Single (w : Word) : Prop where
  stands : w.Stands
  not_bracket : w.isBracket = false
  not_comma : w.isPunct "," = false

theorem Word.Single.spelt {w : Word} (h : w.Single) : Spelt w.text [.word "" w] := by
  simpa using spelt_word h.stands h.not_bracket (g := "") (by decide)

theorem Word.Single.phrase {w : Word} (h : w.Single) {Q : Range → Prop}
    (hQ : ∀ t : Token, t.IsWord w → ∀ follow, Q ⟨[.leaf t], follow⟩) : Phrase w.text Q := by
  refine ⟨[.word "" w], h.spelt, ?_, ?_⟩
  · simp [h.not_comma]
  · intro ts hts follow
    obtain ⟨t, us, rfl, ht, hu⟩ := matches_word_cons.1 hts
    rw [showsAll_nil] at hu
    subst hu
    exact hQ t ht follow

theorem dropConst_singleton (t : Token) :
    dropConst [.leaf t] = [.leaf t] ∨ dropConst [.leaf t] = [] := by
  simp only [dropConst]
  split_ifs
  · exact Or.inr rfl
  · exact Or.inl rfl

theorem readsAs_literal {t : Token} {parts : List Part} (ht : t.IsWord (.literal parts))
    (follow : Option Token) :
    ReadsAs (fun e => ∃ r, e = .string r (mergeParts (fused parts))) ⟨[.leaf t], follow⟩ := by
  intro fuel hf
  obtain ⟨fuel, rfl⟩ := Nat.exists_eq_succ_of_ne_zero (by omega : fuel ≠ 0)
  have hk : t.lexeme.kind = .string := ht.kind_eq
  have htokens : literalTokens? [.leaf t] = some [t] := by simp [literalTokens?, hk]
  refine ⟨_, ?_, rfl, _, rfl⟩
  rw [exprOf_succ (List.cons_ne_nil _ _) (dropConst_singleton t), htokens]
  simp [ht.parts_eq, Word.literal]

/-- A literal whose interpolations can be written, on one line. -/
theorem single_literal {parts : List Part} (hp : ∀ p ∈ parts, p.Writable)
    (hn : ∀ source, Part.hole source ∈ parts → '\n' ∉ source.toList) :
    (Word.literal parts).Single :=
  ⟨stands_literal hp hn, rfl, rfl⟩

/-- A text literal. -/
theorem reads_literal {parts : List Part} (hp : ∀ p ∈ parts, p.Writable)
    (hn : ∀ source, Part.hole source ∈ parts → '\n' ∉ source.toList) :
    Reads (String.ofList (quoted parts)) fun e => ∃ r, e = .string r (mergeParts (fused parts)) :=
  (single_literal hp hn).phrase fun _ ht follow => readsAs_literal ht follow

/-- A word that is a number, a truth value or null. -/
theorem reads_atom {w : Word} (hw : w.Single) (hk : w.kind ≠ .string) {v : Value}
    (ha : ∀ t : Token, t.IsWord w → atom? [.leaf t] = some (.ok v)) :
    Reads w.text fun e => ∃ r, e = .literal r v := by
  refine hw.phrase fun t ht follow fuel hf => ?_
  obtain ⟨fuel, rfl⟩ := Nat.exists_eq_succ_of_ne_zero (by omega : fuel ≠ 0)
  have htokens : literalTokens? [.leaf t] = none := by simp [literalTokens?, ht.kind_eq, hk]
  refine ⟨.literal ⟨[.leaf t], follow⟩ v, ?_, rfl, _, rfl⟩
  rw [exprOf_succ (List.cons_ne_nil _ _) (dropConst_singleton t), htokens, ha t ht]
  rfl

theorem single_name {s : String} (h : isName s = true) : (Word.name s).Single :=
  ⟨stands_name h, rfl, rfl⟩

theorem reads_null : Reads "null" fun e => ∃ r, e = .literal r .null :=
  reads_atom (single_name (s := "null") (by decide)) (by decide)
    fun t ht => by simp [atom?, ht.isName_eq, ht.kind_eq, Word.name]

theorem reads_true : Reads "true" fun e => ∃ r, e = .literal r (.bool true) :=
  reads_atom (single_name (s := "true") (by decide)) (by decide)
    fun t ht => by simp [atom?, ht.isName_eq, ht.kind_eq, Word.name]

theorem reads_false : Reads "false" fun e => ∃ r, e = .literal r (.bool false) :=
  reads_atom (single_name (s := "false") (by decide)) (by decide)
    fun t ht => by simp [atom?, ht.isName_eq, ht.kind_eq, Word.name]

/-! ## Integers -/

theorem isNumeralRest_of_digits {cs : List Char} (h : ∀ c ∈ cs, isDigit c = true) :
    isNumeralRest cs = true := by
  induction cs with
  | nil => rfl
  | cons c cs ih =>
    have hc := h c List.mem_cons_self
    have hne : c ≠ '.' := by rintro rfl; revert hc; decide
    rw [isNumeralRest.eq_3 c cs (by simpa using hne)]
    simp [hc, ih fun d hd => h d (List.mem_cons_of_mem _ hd)]

theorem isNumeral_digits (n : Nat) : isNumeral (String.ofList (digitsOf n)) = true := by
  obtain ⟨c, cs, hcs⟩ := List.exists_cons_of_ne_nil (digitsOf_ne_nil n)
  have hd : ∀ d ∈ c :: cs, isDigit d = true := fun d hd => isDigit_of_mem_digitsOf (hcs ▸ hd)
  simp [isNumeral, hcs, hd c List.mem_cons_self,
    isNumeralRest_of_digits fun d hm => hd d (List.mem_cons_of_mem _ hm)]

theorem single_digits (n : Nat) : (Word.numeral (String.ofList (digitsOf n))).Single :=
  ⟨stands_numeral (isNumeral_digits n), rfl, rfl⟩

theorem numeralValue_digits (n : Nat) :
    numeralValue (String.ofList (digitsOf n)) = .ok (.int n) := by
  have hd : ∀ c ∈ digitsOf n, isDigit c = true := fun c hc => isDigit_of_mem_digitsOf hc
  have hmark : hasHexMark (digitsOf n) = false := by
    unfold hasHexMark
    split
    · rename_i x _ h
      have hx := hd x (by simp [h])
      rw [Bool.or_eq_false_iff, beq_eq_false_iff_ne, beq_eq_false_iff_ne]
      constructor <;> (rintro rfl; revert hx; decide)
    · rfl
  have hall : (digitsOf n).all isDecimal = true :=
    List.all_eq_true.2 fun c hc => isDecimal_of_isDigit (hd c hc)
  simp only [numeralValue, String.toList_ofList, hmark, hall, Bool.false_eq_true, if_false, if_true,
    readInt?_digits]

theorem not_mem_joiningMarks_of_isDigit {c : Char} (h : isDigit c = true) : c ∉ joiningMarks := by
  have hall : ∀ d ∈ joiningMarks, isDigit d = false := forall_mem_of_all (by decide)
  intro hc
  simp [hall c hc] at h

/-- A negative number is a sign and its digits. -/
theorem spelt_negative (n : Nat) : Spelt (String.ofList ('-' :: digitsOf n))
    [.word "" (.mark "-"), .word "" (.numeral (String.ofList (digitsOf n)))] := by
  have hsign : (Word.mark "-").Single := ⟨stands_of_isPlain (by decide), rfl, rfl⟩
  have hs := hsign.spelt.append (single_digits n).spelt (by
    intro d hd
    have hdigit : isDigit d = true := by
      refine isDigit_of_mem_digitsOf (n := n) (List.mem_of_mem_head? ?_)
      simpa [Word.numeral] using hd
    have := not_mem_joiningMarks_of_isDigit hdigit
    simp [Piece.meets, Word.meets, Word.mark, this])
  have htext : (Word.mark "-").text ++ (Word.numeral (String.ofList (digitsOf n))).text =
      String.ofList ('-' :: digitsOf n) := by
    rw [← String.toList_inj]
    simp [Word.mark, Word.numeral]
  exact htext ▸ hs

theorem reads_negative (n : Nat) :
    Reads (String.ofList ('-' :: digitsOf n)) fun e => ∃ r, e = .literal r (.int (-n)) := by
  refine ⟨_, spelt_negative n, rfl, fun ts hts follow fuel hf => ?_⟩
  obtain ⟨s, us, rfl, hsign, hu⟩ := matches_word_cons.1 hts
  obtain ⟨t, vs, rfl, ht, hv⟩ := matches_word_cons.1 hu.matches
  rw [showsAll_nil] at hv
  subst hv
  obtain ⟨fuel, rfl⟩ := Nat.exists_eq_succ_of_ne_zero (by omega : fuel ≠ 0)
  have htokens : literalTokens? [.leaf s, .leaf t] = none := by
    simp [literalTokens?, hsign.kind_eq, Word.mark]
  have hatom : atom? [.leaf s, .leaf t] = some (.ok (.int (-n))) := by
    simp only [atom?, hsign.text_eq, ht.kind_eq, ht.text_eq, Word.mark, Word.numeral,
      numeralValue_digits]
    rfl
  refine ⟨.literal ⟨[.leaf s, .leaf t], follow⟩ (.int (-n)), ?_, rfl, _, rfl⟩
  rw [exprOf_succ (List.cons_ne_nil _ _)
    (Or.inl (dropConst_leaf (hsign.not_const (by simp [Word.mark])) _)), htokens, hatom]
  rfl

theorem reads_int (i : Int) : Reads (showInt i) fun e => ∃ r, e = .literal r (.int i) := by
  cases i with
  | ofNat n =>
    refine reads_atom (w := .numeral (String.ofList (digitsOf n))) (single_digits n) nofun
      fun t ht => ?_
    simp [atom?, ht.kind_eq, ht.text_eq, Word.numeral, numeralValue_digits]
  | negSucc n => exact reads_negative (n + 1)

/-! ## Several expressions -/

/-- Expressions that have given properties, one by one. -/
abbrev Meet (Ps : List (Expr → Prop)) (es : List Expr) : Prop := List.Forall₂ (fun P e => P e) Ps es

/-- The size of expressions with a separator after each. -/
def sizeOfExprs : List Expr → Nat
  | [] => 0
  | e :: es => TokenTree.sizeOf' e.range.trees + 1 + sizeOfExprs es

@[simp] theorem sizeOfExprs_nil : sizeOfExprs [] = 0 := rfl

@[simp] theorem sizeOfExprs_cons (e : Expr) (es : List Expr) :
    sizeOfExprs (e :: es) = TokenTree.sizeOf' e.range.trees + 1 + sizeOfExprs es := rfl

theorem sizeOfExprs_append (es fs : List Expr) :
    sizeOfExprs (es ++ fs) = sizeOfExprs es + sizeOfExprs fs := by
  induction es with
  | nil => simp
  | cons e es ih => simp only [List.cons_append, sizeOfExprs_cons, ih, Nat.add_assoc]

theorem sizeOf'_le_of_mem {e : Expr} {es : List Expr} (h : e ∈ es) :
    TokenTree.sizeOf' e.range.trees + 1 ≤ sizeOfExprs es := by
  induction es with
  | nil => cases h
  | cons f es ih =>
    rw [sizeOfExprs_cons]
    rcases List.mem_cons.1 h with rfl | h
    · omega
    · have := ih h
      omega

theorem exprsOf_of_fit {Ps : List (Expr → Prop)} {rs : List Range} (h : Fit (Ps.map ReadsAs) rs)
    {fuel : Nat} (hf : 3 * sizeOfParts rs + 1 ≤ fuel) :
    ∃ es, exprsOf fuel rs = .ok es ∧ Meet Ps es ∧ sizeOfExprs es = sizeOfParts rs := by
  induction Ps generalizing rs fuel with
  | nil =>
    cases h
    obtain ⟨fuel, rfl⟩ := Nat.exists_eq_succ_of_ne_zero (by omega : fuel ≠ 0)
    exact ⟨[], rfl, List.Forall₂.nil, rfl⟩
  | cons P Ps ih =>
    obtain ⟨r, rs, hr, hrs, rfl⟩ := List.forall₂_cons_left_iff.1 h
    rw [sizeOfParts_cons] at hf
    obtain ⟨fuel, rfl⟩ := Nat.exists_eq_succ_of_ne_zero (by omega : fuel ≠ 0)
    obtain ⟨e, he, hrange, hP⟩ := hr fuel (by omega)
    obtain ⟨es, hes, hmeet, hsize⟩ := ih hrs (by omega : 3 * sizeOfParts rs + 1 ≤ fuel)
    refine ⟨e :: es, ?_, List.Forall₂.cons hP hmeet, ?_⟩
    · simp only [exprsOf, he, hes, bind, Except.bind, pure, Except.pure]
    · rw [sizeOfExprs_cons, sizeOfParts_cons, hrange, hsize]

/-- The name of an argument and what is known of its value. -/
abbrev ArgSpec := Option String × (Expr → Prop)

/-- A range that is read as an argument. -/
def ReadsArg (spec : ArgSpec) (r : Range) : Prop :=
  ∃ v, argumentRange r = (spec.1, v) ∧ TokenTree.sizeOf' v.trees ≤ TokenTree.sizeOf' r.trees ∧
    ReadsAs spec.2 v

/-- Arguments as they are specified, one by one. -/
abbrev ArgsMeet (specs : List ArgSpec) (args : List (Option String × Expr)) : Prop :=
  List.Forall₂ (fun s a => a.1 = s.1 ∧ s.2 a.2) specs args

section Named

variable {specs : List ArgSpec} {args : List (Option String × Expr)}

/-- The argument of a name is as it is specified. -/
theorem named?_of_meet (h : ArgsMeet specs args) (name : String) {spec : ArgSpec}
    (hs : specs.find? (fun s => s.1 == some name) = some spec) :
    ∃ e, Expr.named? args name = some e ∧ spec.2 e ∧ e ∈ args.map (·.2) := by
  induction h with
  | nil => cases hs
  | @cons s a specs args ha _ ih =>
    rw [Expr.named?, List.find?_cons, ha.1]
    rw [List.find?_cons] at hs
    cases hname : s.1 == some name with
    | true =>
      rw [hname] at hs
      cases hs
      exact ⟨a.2, rfl, ha.2, List.mem_cons_self⟩
    | false =>
      rw [hname] at hs
      obtain ⟨e, he, hP, hmem⟩ := ih hs
      exact ⟨e, he, hP, List.mem_cons_of_mem _ hmem⟩

theorem named?_eq_none (h : ArgsMeet specs args) (name : String)
    (hs : specs.find? (fun s => s.1 == some name) = none) : Expr.named? args name = none := by
  induction h with
  | nil => rfl
  | @cons s a specs args ha _ ih =>
    rw [List.find?_cons] at hs
    rw [Expr.named?, List.find?_cons, ha.1]
    cases hname : s.1 == some name with
    | true =>
      rw [hname] at hs
      cases hs
    | false =>
      rw [hname] at hs
      exact ih hs

end Named

theorem argsOf_of_fit {specs : List ArgSpec} {rs : List Range} (h : Fit (specs.map ReadsArg) rs)
    {fuel : Nat} (hf : 3 * sizeOfParts rs + 1 ≤ fuel) :
    ∃ args, argsOf fuel rs = .ok args ∧ ArgsMeet specs args ∧
      sizeOfExprs (args.map (·.2)) ≤ sizeOfParts rs := by
  induction specs generalizing rs fuel with
  | nil =>
    cases h
    obtain ⟨fuel, rfl⟩ := Nat.exists_eq_succ_of_ne_zero (by omega : fuel ≠ 0)
    exact ⟨[], rfl, List.Forall₂.nil, Nat.le_refl _⟩
  | cons spec specs ih =>
    obtain ⟨r, rs, ⟨v, hv, hsize, hr⟩, hrs, rfl⟩ := List.forall₂_cons_left_iff.1 h
    rw [sizeOfParts_cons] at hf
    obtain ⟨fuel, rfl⟩ := Nat.exists_eq_succ_of_ne_zero (by omega : fuel ≠ 0)
    obtain ⟨e, he, hrange, hP⟩ := hr fuel (by omega)
    obtain ⟨args, hargs, hmeet, hle⟩ := ih hrs (by omega : 3 * sizeOfParts rs + 1 ≤ fuel)
    refine ⟨(spec.1, e) :: args, ?_, List.Forall₂.cons ⟨rfl, hP⟩ hmeet, ?_⟩
    · simp only [argsOf, hv, he, hargs, bind, Except.bind, pure, Except.pure]
    · simp only [List.map_cons, sizeOfExprs_cons, sizeOfParts_cons, hrange]
      omega

/-- The colon. -/
def colon : Word := .mark ":"

/-- The outline of a word, a colon and a blank in front of another outline. -/
def keyed (w : Word) (ps : List Piece) : List Piece :=
  .word "" w :: .word "" colon :: leadWith " " ps

theorem Spelt.keyed {a : String} {ps : List Piece} (h : Spelt a ps) {w : Word} (hw : w.Single) :
    Spelt (w.text ++ ": " ++ a) (keyed w ps) := by
  have hcolon : colon.Single := ⟨stands_of_isPlain (by decide), rfl, rfl⟩
  have hs := hw.spelt.append (hcolon.spelt.append (h.lead (g := " ") (by decide))
    fun d _ => Word.meets_of_isSoftMark (w := colon) rfl (by decide) d)
    fun d hd => endMeets_of_isSoft _ (by
      have hd : ':' = d := by simpa [colon, Word.mark] using hd
      rw [← hd]
      decide)
  have htext : w.text ++ (colon.text ++ (" " ++ a)) = w.text ++ ": " ++ a := by
    rw [show (": " : String) = colon.text ++ " " from rfl]
    simp only [String.append_assoc]
  exact htext ▸ hs

theorem lacks_keyed {w : Word} (hw : w.Single) {ps : List Piece} (h : lacks "," ps = true) :
    lacks "," (keyed w ps) = true := by
  have hcolon : colon.isPunct "," = false := rfl
  simp [keyed, lacks_leadWith, h, hw.not_comma, hcolon]

theorem matches_keyed {ts : List TokenTree} {w : Word} {ps : List Piece}
    (h : Matches ts (keyed w ps)) : ∃ t c vs, ts = .leaf t :: .leaf c :: vs ∧ t.IsWord w ∧
      c.IsWord colon ∧ Matches vs ps := by
  obtain ⟨t, us, rfl, ht, hu⟩ := matches_word_cons.1 h
  obtain ⟨c, vs, rfl, hc, hv⟩ := matches_word_cons.1 hu.matches
  exact ⟨t, c, vs, rfl, ht, hc, matches_leadWith.1 hv.matches⟩

/-- A named argument. -/
theorem readsArg_named {a : String} {P : Expr → Prop} (h : Reads a P) {name : String}
    (hn : isName name = true) : Phrase (name ++ ": " ++ a) (ReadsArg (some name, P)) := by
  obtain ⟨ps, hs, hl, hm⟩ := h
  refine ⟨_, hs.keyed (single_name hn), lacks_keyed (single_name hn) hl, fun ts hts follow => ?_⟩
  obtain ⟨n, c, vs, rfl, hnt, hct, hv⟩ := matches_keyed hts
  refine ⟨⟨vs, follow⟩, ?_, ?_, hm vs hv follow⟩
  · have hi : n.isIdent = true := hnt.isIdent_eq
    have hp : c.isPunct ":" = true := hct.isPunct_eq ":"
    simp [argumentRange, hi, hp, hnt.text_eq, Word.name]
  · simp only [TokenTree.sizeOf', TokenTree.size]
    omega

/-! ## Brackets -/

/-- The inside of brackets is read as a listing. -/
theorem Listing.bracketed {inner : String} {Qs : List (Range → Prop)} (h : Listing inner Qs)
    (b : Bracket) {g' : String} (hg' : isGap g' = true) :
    ∃ ps, Spelt (b.opener ++ inner ++ g' ++ b.closer) [.group "" b ps g'] ∧ Splits ps Qs := by
  obtain ⟨ps, hi, hs, hsplit⟩ := h
  refine ⟨ps, ?_, hsplit⟩
  simpa using spelt_group b hi hs (g := "") (by decide) hg'

/-- A list in brackets. -/
def IsList (Ps : List (Expr → Prop)) (e : Expr) : Prop :=
  ∃ r items, e = .list r items ∧ Meet Ps items ∧
    sizeOfExprs items + 1 ≤ TokenTree.sizeOf' r.trees

/-- A range that has the shape of a list is read as one. -/
theorem readsAs_list {Ps : List (Expr → Prop)} {r : Range} {vs : List TokenTree} {c : Token}
    (hne : r.trees ≠ []) (hbare : dropConst r.trees = r.trees)
    (htokens : literalTokens? r.trees = none) (hatom : atom? r.trees = none)
    (hshape : shapeOf r.trees = .listOf vs c)
    (hsize : TokenTree.sizeOf' vs + 2 ≤ TokenTree.sizeOf' r.trees)
    (hfit : Fit (Ps.map ReadsAs) (Range.splitFrom "," (some c) [] vs)) : ReadsAs (IsList Ps) r := by
  intro fuel hf
  have hparts := sizeOfParts_splitFrom "," (some c) [] vs
  simp only [TokenTree.sizeOf'] at hparts
  obtain ⟨fuel, rfl⟩ : ∃ n, fuel = n + 2 := ⟨fuel - 2, by omega⟩
  obtain ⟨items, hitems, hmeet, hitemsSize⟩ := exprsOf_of_fit hfit (by omega :
      3 * sizeOfParts (Range.splitFrom "," (some c) [] vs) + 1 ≤ fuel)
  refine ⟨.list r items, ?_, rfl, r, items, rfl, hmeet, ?_⟩
  · rw [exprOf_succ hne (Or.inl hbare), htokens, hatom, hshape]
    simp only [shapeExpr, Range.splitTop, hitems, bind, Except.bind, pure, Except.pure]
  · rw [hitemsSize]
    omega

theorem reads_list {inner : String} {Ps : List (Expr → Prop)}
    (h : Listing inner (Ps.map ReadsAs)) (g' : String) (hg' : isGap g' = true) :
    Reads ("[" ++ inner ++ g' ++ "]") (IsList Ps) := by
  obtain ⟨ps, hs, hsplit⟩ := h.bracketed .square hg'
  refine ⟨_, hs, rfl, fun ts hts follow => ?_⟩
  obtain ⟨o, vs, c, us, rfl, ho, hc, -, hv, hu⟩ := matches_group_cons.1 hts
  rw [showsAll_nil] at hu
  subst hu
  have hsquare : o.isPunct "[" = true := ho.isPunct_eq "["
  have hshape : shapeOf [.group o vs c] = .listOf vs c := by
    simp [shapeOf, startsAngle, collection?, hsquare]
  exact readsAs_list (List.cons_ne_nil _ _) rfl rfl rfl hshape (Nat.le_refl _)
    (hsplit vs hv.matches (some c))

/-- A range that is a name with brackets after it. -/
def Range.Invokes (r : Range) (callee : String) : Prop :=
  ∃ n o vs c, r.trees = [.leaf n, .group o vs c] ∧ n.IsWord (.name callee) ∧
    o.IsWord (.mark Bracket.round.opener)

/-- A call with arguments as they are specified. -/
def IsCall (callee : String) (specs : List ArgSpec) (e : Expr) : Prop :=
  ∃ r args, e = .call r callee "" args [] ∧ r.Invokes callee ∧ ArgsMeet specs args ∧
    sizeOfExprs (args.map (·.2)) + 2 ≤ TokenTree.sizeOf' r.trees

theorem leadingComments_eq_nil {vs : List TokenTree} {ps : List Piece} (hv : Matches vs ps)
    {c : Token} (hc : c.comments = []) : leadingComments vs c = [] := by
  cases ps with
  | nil =>
    rw [matches_nil] at hv
    simp [leadingComments, hv, hc]
  | cons p ps =>
    cases p with
    | word g w =>
      obtain ⟨t, us, rfl, ht, -⟩ := matches_word_cons.1 hv
      simp [leadingComments, TokenTree.first, ht.comments_eq]
    | group g b inner g' =>
      obtain ⟨o, ws, d, us, rfl, ho, -⟩ := matches_group_cons.1 hv
      simp [leadingComments, TokenTree.first, ho.comments_eq]

theorem isCallable_iff {s : String} :
    isCallable s = true ↔ isName s = true ∧ s ≠ "const" ∧ s ≠ "new" := by
  simp [isCallable, and_assoc]

theorem shapeOf_call {n o c : Token} {callee : String} (hn : n.IsWord (.name callee))
    (hname : isName callee = true) (ho : o.isPunct "(" = true) (vs : List TokenTree) :
    shapeOf [.leaf n, .group o vs c] = .callOf callee "" vs c := by
  have hangle : callee ≠ "<" := by rintro rfl; revert hname; decide
  have hi : n.isIdent = true := hn.isIdent_eq
  simp [shapeOf, startsAngle, collection?, openShape, callShape, callHead?, dottedName,
    join, hi, ho, hn.text_eq, Word.name, hangle]

/-- A name and brackets with a listing behind it. -/
theorem spelt_call {callee inner : String} {Qs : List (Range → Prop)} (hname : isName callee = true)
    (h : Listing inner Qs) {g' : String} (hg' : isGap g' = true) :
    ∃ ps, Spelt (callee ++ "(" ++ inner ++ g' ++ ")")
      [.word "" (.name callee), .group "" .round ps g'] ∧ Splits ps Qs := by
  obtain ⟨ps, hs, hsplit⟩ := h.bracketed .round hg'
  have hspelt := (single_name hname).spelt.append hs fun d hd => endMeets_of_isSoft _ (by
    have hd : '(' = d := by simpa [Bracket.opener] using hd
    rw [← hd]
    decide)
  have htext :
      (Word.name callee).text ++ (Bracket.round.opener ++ inner ++ g' ++ Bracket.round.closer)
      = callee ++ "(" ++ inner ++ g' ++ ")" := by
    simp only [String.append_assoc]
    rfl
  rw [htext] at hspelt
  exact ⟨ps, hspelt, hsplit⟩

theorem reads_call {callee inner : String} {specs : List ArgSpec}
    (hcallee : isCallable callee = true) (h : Listing inner (specs.map ReadsArg)) (g' : String)
    (hg' : isGap g' = true) :
    Reads (callee ++ "(" ++ inner ++ g' ++ ")") (IsCall callee specs) := by
  obtain ⟨hname, hconst⟩ := isCallable_iff.1 hcallee
  obtain ⟨ps, hspelt, hsplit⟩ := spelt_call hname h hg'
  refine ⟨_, hspelt, rfl, fun ts hts follow fuel hf => ?_⟩
  obtain ⟨n, us, rfl, hn, hu⟩ := matches_word_cons.1 hts
  obtain ⟨o, vs, c, ws, rfl, ho, hc, -, hv, hw⟩ := matches_group_cons.1 hu.matches
  rw [showsAll_nil] at hw
  subst hw
  have hparts := sizeOfParts_splitFrom "," (some c) [] vs
  simp only [TokenTree.sizeOf', TokenTree.size] at hf hparts
  obtain ⟨fuel, rfl⟩ : ∃ n, fuel = n + 2 := ⟨fuel - 2, by omega⟩
  obtain ⟨args, hargs, hmeet, hsize⟩ :=
    argsOf_of_fit (hsplit vs hv.matches (some c)) (by omega :
      3 * sizeOfParts (Range.splitFrom "," (some c) [] vs) + 1 ≤ fuel)
  have hround : o.isPunct "(" = true := ho.isPunct_eq "("
  have htokens : literalTokens? [.leaf n, .group o vs c] = none := by
    simp [literalTokens?, hn.kind_eq, Word.name]
  refine ⟨.call ⟨[.leaf n, .group o vs c], follow⟩ callee "" args [], ?_, rfl, _, _, rfl,
    ⟨n, o, vs, c, rfl, hn, ho⟩, hmeet, ?_⟩
  · rw [exprOf_succ (List.cons_ne_nil _ _)
      (Or.inl (dropConst_leaf (hn.not_const fun _ => hconst) _)), htokens]
    simp only [atom?, shapeOf_call hn hname hround, shapeExpr, Range.splitTop, hargs, bind,
      Except.bind, pure, Except.pure, leadingComments_eq_nil hv.matches hc.comments_eq]
  · simp only [TokenTree.sizeOf', TokenTree.size]
    omega

/-- Behind one of the two words in front of constructors the brackets have no name, and make no
call. -/
theorem reads_constructorWord {word inner : String} (hword : word = "const" ∨ word = "new")
    {Qs : List (Range → Prop)} (h : Listing inner Qs) {g' : String} (hg' : isGap g' = true) :
    Reads (word ++ "(" ++ inner ++ g' ++ ")") fun e => ∃ r, e = .other r := by
  have hname : isName word = true := by rcases hword with rfl | rfl <;> decide
  obtain ⟨ps, hspelt, -⟩ := spelt_call hname h hg'
  refine ⟨_, hspelt, rfl, fun ts hts follow fuel hf => ?_⟩
  obtain ⟨n, us, rfl, hn, hu⟩ := matches_word_cons.1 hts
  obtain ⟨o, vs, c, ws, rfl, ho, hc, -, hv, hw⟩ := matches_group_cons.1 hu.matches
  rw [showsAll_nil] at hw
  subst hw
  simp only [TokenTree.sizeOf', TokenTree.size] at hf
  obtain ⟨fuel, rfl⟩ : ∃ n, fuel = n + 3 := ⟨fuel - 3, by omega⟩
  have hskip : (n.isName "const" || n.isName "new") = true := by
    rw [hn.isName_eq, hn.isName_eq]
    rcases hword with rfl | rfl <;> rfl
  have hbare : dropConst [.leaf n, .group o vs c] = [.group o vs c] := by
    simp only [dropConst, hskip, if_true]
  have hsquare : o.isPunct "[" = false := ho.isPunct_eq "["
  have hcurly : o.isPunct "\x7b" = false := ho.isPunct_eq "\x7b"
  have hshape : shapeOf [.group o vs c] = .other := by
    simp [shapeOf, startsAngle, collection?, hsquare, hcurly, openShape, callShape, callHead?]
  have hinner : exprOf (fuel + 2) ⟨[.group o vs c], follow⟩ =
      .ok (.other ⟨[.group o vs c], follow⟩) := by
    rw [exprOf_succ (List.cons_ne_nil _ _) (Or.inl rfl)]
    simp only [literalTokens?, atom?, hshape, shapeExpr]
  refine ⟨.other ⟨[.leaf n, .group o vs c], follow⟩, ?_, rfl, _, rfl⟩
  rw [exprOf]
  simp only [Range.isEmpty, List.isEmpty_cons, Bool.false_eq_true, if_false, hbare,
    List.length_cons, List.length_nil, hinner]
  rfl

/-! ## Maps -/

/-- A range that is read as a map entry. -/
def ReadsEntry (spec : (Expr → Prop) × (Expr → Prop)) (r : Range) : Prop :=
  ∃ k v, entryRanges? r = some (k, v) ∧
    TokenTree.sizeOf' k.trees + TokenTree.sizeOf' v.trees ≤ TokenTree.sizeOf' r.trees ∧
    ReadsAs spec.1 k ∧ ReadsAs spec.2 v

/-- Entries that are as they are specified, one by one. -/
abbrev EntriesMeet (specs : List ((Expr → Prop) × (Expr → Prop)))
    (es : List (Expr × Expr)) : Prop :=
  List.Forall₂ (fun s e => s.1 e.1 ∧ s.2 e.2) specs es

theorem entriesOf_of_fit {specs : List ((Expr → Prop) × (Expr → Prop))} {rs : List Range}
    (h : Fit (specs.map ReadsEntry) rs) {fuel : Nat} (hf : 3 * sizeOfParts rs + 1 ≤ fuel) :
    ∃ es, entriesOf fuel rs = .ok (some es) ∧ EntriesMeet specs es := by
  induction specs generalizing rs fuel with
  | nil =>
    cases h
    obtain ⟨fuel, rfl⟩ := Nat.exists_eq_succ_of_ne_zero (by omega : fuel ≠ 0)
    exact ⟨[], rfl, List.Forall₂.nil⟩
  | cons spec specs ih =>
    obtain ⟨r, rs, ⟨k, v, hkv, hsize, hk, hv⟩, hrs, rfl⟩ := List.forall₂_cons_left_iff.1 h
    rw [sizeOfParts_cons] at hf
    obtain ⟨fuel, rfl⟩ := Nat.exists_eq_succ_of_ne_zero (by omega : fuel ≠ 0)
    obtain ⟨key, hkey, -, hK⟩ := hk fuel (by omega)
    obtain ⟨value, hvalue, -, hV⟩ := hv fuel (by omega)
    obtain ⟨es, hes, hmeet⟩ := ih hrs (by omega : 3 * sizeOfParts rs + 1 ≤ fuel)
    refine ⟨(key, value) :: es, ?_, List.Forall₂.cons ⟨hK, hV⟩ hmeet⟩
    simp only [entriesOf, hkv, hkey, hvalue, hes, bind, Except.bind, pure, Except.pure]

/-- A map entry whose key is a text literal. -/
theorem readsEntry_literal {a : String} {V : Expr → Prop} (h : Reads a V) {parts : List Part}
    (hk : (Word.literal parts).Single) :
    Phrase (String.ofList (quoted parts) ++ ": " ++ a)
      (ReadsEntry (fun e => ∃ r, e = .string r (mergeParts (fused parts)), V)) := by
  obtain ⟨ps, hs, hl, hm⟩ := h
  rw [← Word.text_literal]
  refine ⟨_, hs.keyed hk, lacks_keyed hk hl, fun ts hts follow => ?_⟩
  obtain ⟨t, c, vs, rfl, ht, hc, hv⟩ := matches_keyed hts
  refine ⟨⟨[.leaf t], some c⟩, ⟨vs, follow⟩, ?_, ?_, readsAs_literal ht _, hm vs hv follow⟩
  · have hkey : t.isPunct ":" = false := ht.isPunct_eq ":"
    have hcolon : c.isPunct ":" = true := hc.isPunct_eq ":"
    simp [entryRanges?, Range.cutTop?, TokenTree.isPunct, TokenTree.first, hkey, hcolon]
  · simp only [TokenTree.sizeOf', TokenTree.size]
    omega

theorem reads_map {inner : String} {specs : List ((Expr → Prop) × (Expr → Prop))}
    (h : Listing inner (specs.map ReadsEntry)) (g' : String) (hg' : isGap g' = true) :
    Reads ("\x7b" ++ inner ++ g' ++ "\x7d") fun e =>
      ∃ r es, e = .map r es ∧ EntriesMeet specs es := by
  obtain ⟨ps, hs, hsplit⟩ := h.bracketed .curly hg'
  refine ⟨_, hs, rfl, fun ts hts follow fuel hf => ?_⟩
  obtain ⟨o, vs, c, us, rfl, ho, hc, -, hv, hu⟩ := matches_group_cons.1 hts
  rw [showsAll_nil] at hu
  subst hu
  have hparts := sizeOfParts_splitFrom "," (some c) [] vs
  simp only [TokenTree.sizeOf', TokenTree.size] at hf hparts
  obtain ⟨fuel, rfl⟩ : ∃ n, fuel = n + 2 := ⟨fuel - 2, by omega⟩
  obtain ⟨es, hes, hmeet⟩ :=
    entriesOf_of_fit (hsplit vs hv.matches (some c)) (by omega :
      3 * sizeOfParts (Range.splitFrom "," (some c) [] vs) + 1 ≤ fuel)
  have hsquare : o.isPunct "[" = false := ho.isPunct_eq "["
  have hcurly : o.isPunct "\x7b" = true := ho.isPunct_eq "\x7b"
  have hshape : shapeOf [.group o vs c] = .mapOf vs c := by
    simp [shapeOf, startsAngle, collection?, hsquare, hcurly]
  refine ⟨.map ⟨[.group o vs c], follow⟩ es, ?_, rfl, _, _, rfl, hmeet⟩
  rw [exprOf_succ (List.cons_ne_nil _ _) (Or.inl rfl)]
  simp only [literalTokens?, atom?, hshape, shapeExpr, Range.splitTop, hes, bind, Except.bind,
    pure, Except.pure]

/-! ## Whole sources -/

/-- A text that is read as an expression is one as a source of its own. -/
theorem Reads.source {a : String} {P : Expr → Prop} (h : Reads a P) :
    ∃ s e, Source.read a = .ok s ∧ s.all.expr = .ok e ∧ P e := by
  obtain ⟨ps, hs, -, hm⟩ := h
  obtain ⟨s, hread, hshow, -, -⟩ := read_spellAll hs.sound "" (by decide)
  obtain ⟨e, he, -, hP⟩ := hm s.trees hshow.matches none (3 * TokenTree.sizeOf' s.trees + 3)
    (by simp only; omega)
  refine ⟨s, e, ?_, he, hP⟩
  rw [← hread, ← hs.toList_eq]
  simp

end WidgetBridge.WidgetGrammar
