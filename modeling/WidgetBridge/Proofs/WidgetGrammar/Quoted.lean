import WidgetBridge.Proofs.WidgetGrammar.Boundary
import WidgetBridge.WidgetGrammar.Literal

/-!
# Quoted texts

A text literal is written part by part: plain text is escaped, and an interpolated expression
stands in `$\{…}`.  The reader takes such a literal apart again, whatever the plain text holds:

* `literalBody_body` reads the inside of a literal up to the closing quote;
* `stands_literal` says that the whole literal is one word;
* `fused_eq_self` says that its parts come back as they are, if no two plain texts are adjacent.
-/

namespace WidgetBridge.WidgetGrammar

open WidgetBridge.Text

/-! ## What a literal is made of -/

/-- Whether the braces in a source are balanced, with `depth` of them open in front of it. -/
def closesBraces : (depth : Nat) → List Char → Bool
  | depth, [] => depth == 0
  | depth, c :: cs =>
    if c = '\x7b' then closesBraces (depth + 1) cs
    else if c = '\x7d' then depth != 0 && closesBraces (depth - 1) cs
    else closesBraces depth cs

/-- A source that can stand in an interpolation: it has no quotes, its braces are balanced, and no
blanks stand around it. -/
structure IsHole (source : String) : Prop where
  no_quote : ∀ c ∈ source.toList, c ≠ '\'' ∧ c ≠ '"'
  closes : closesBraces 0 source.toList = true
  trimmed : trimChars source.toList = source.toList

/-- A part that can be written. -/
def Part.Writable : Part → Prop
  | .text _ => True
  | .hole source => IsHole source

/-- The characters of a part inside of a literal. -/
def Part.body : Part → List Char
  | .text s => s.toList.flatMap escapeChar
  | .hole source => '$' :: '\x7b' :: source.toList ++ ['\x7d']

/-- The inside of a literal. -/
def bodyOf (parts : List Part) : List Char := parts.flatMap Part.body

/-- A literal with its quotes. -/
def quoted (parts : List Part) : List Char := '\'' :: bodyOf parts ++ ['\'']

/-- What a reader makes of parts: adjacent plain texts become one, and empty ones vanish. `buffer`
is the plain text at hand and `done` are the parts before it, both from the last to the first. -/
def fuseOnto (buffer : List Char) (done : List Part) : List Part → List Part
  | [] => flushParts buffer done
  | .text s :: ps => fuseOnto (s.toList.reverse ++ buffer) done ps
  | .hole source :: ps => fuseOnto [] (.hole source :: flushParts buffer done) ps

/-- The parts with adjacent plain texts fused. -/
def fused (parts : List Part) : List Part := (fuseOnto [] [] parts).reverse

@[simp] theorem bodyOf_nil : bodyOf [] = [] := rfl

@[simp] theorem bodyOf_cons (p : Part) (ps : List Part) : bodyOf (p :: ps) = p.body ++ bodyOf ps :=
  rfl

theorem toList_string (s : String) : (string s).toList = quoted [.text s] := by
  simp [string, quoted, Part.body]

theorem fused_text {s : String} (h : s ≠ "") : fused [.text s] = [.text s] := by
  have hs : s.toList ≠ [] := by simpa using h
  simp [fused, fuseOnto, flushParts, hs]

/-! ## Reading the inside -/

theorem escapeChar_ne_nil (c : Char) : escapeChar c ≠ [] := by
  unfold escapeChar
  split_ifs <;> simp

theorem length_le_length_escape (cs : List Char) : cs.length ≤ (cs.flatMap escapeChar).length := by
  induction cs with
  | nil => simp
  | cons c cs ih =>
    have := List.length_pos_of_ne_nil (escapeChar_ne_nil c)
    simp only [List.length_cons, List.flatMap_cons, List.length_append]
    omega

/-- An escaped character starts with neither a quote nor a line feed. -/
theorem head_escapeChar (c : Char) : ∀ d ∈ (escapeChar c).head?, d ≠ '\'' ∧ d ≠ '\n' := by
  unfold escapeChar
  split_ifs <;> simp_all

theorem newline_not_mem_escapeChar (c : Char) : '\n' ∉ escapeChar c := by
  unfold escapeChar
  split_ifs with _ _ _ h
  case neg => simpa using fun hc => h (by simp [← hc])
  all_goals decide

section Single

/-- The quotes of the literals that are written. -/
def single : Quotes := ⟨'\'', false⟩

variable (start taken : Nat) (buffer : List Char) (done : List Part) (rest : List Char)

/-- One character of plain text. -/
theorem literalBody_escapeChar (fuel : Nat) (c : Char) :
    literalBody (fuel + 1) false single start taken buffer done (escapeChar c ++ rest) =
      literalBody fuel false single start (taken + (escapeChar c).length) (c :: buffer) done
        rest := by
  unfold escapeChar
  split_ifs with h1 h2 h3 h4 h5 h6
  all_goals simp only [beq_iff_eq] at *
  all_goals try subst c
  all_goals try rfl
  have hq : dropHead? single.delimiter (c :: rest) = none := dropHead?_cons_of_ne (Ne.symm h2) _ _
  simp [literalBody, hq, h1, h3, h4]

theorem literalBody_text (fuel : Nat) (s : List Char) :
    literalBody (fuel + s.length) false single start taken buffer done
        (s.flatMap escapeChar ++ rest) =
      literalBody fuel false single start (taken + (s.flatMap escapeChar).length)
        (s.reverse ++ buffer) done rest := by
  induction s generalizing taken buffer with
  | nil => rfl
  | cons c s ih =>
    rw [List.length_cons, ← Nat.add_assoc, List.flatMap_cons, List.append_assoc,
      literalBody_escapeChar, ih]
    simp [Nat.add_assoc]

/-- The end of an interpolation is the brace that closes it. -/
theorem holeEnd_append {depth : Nat} {source : List Char}
    (hq : ∀ c ∈ source, c ≠ '\'' ∧ c ≠ '"') (hb : closesBraces depth source = true)
    {fuel : Nat} (hf : source.length < fuel) :
    holeEnd fuel (depth + 1) taken (source ++ '\x7d' :: rest) =
      .ok (taken + source.length + 1) := by
  induction source generalizing depth fuel taken with
  | nil =>
    obtain ⟨fuel, rfl⟩ := Nat.exists_eq_succ_of_ne_zero (by omega : fuel ≠ 0)
    have hd : depth = 0 := by simpa [closesBraces] using hb
    simp [holeEnd, hd]
  | cons c cs ih =>
    obtain ⟨fuel, rfl⟩ := Nat.exists_eq_succ_of_ne_zero (by omega : fuel ≠ 0)
    have hc := hq c List.mem_cons_self
    have hcs : ∀ d ∈ cs, d ≠ '\'' ∧ d ≠ '"' := fun d hd => hq d (List.mem_cons_of_mem _ hd)
    have hlen : cs.length < fuel := by simpa using hf
    simp only [List.cons_append, holeEnd, beq_eq_false_iff_ne.2 hc.1, beq_eq_false_iff_ne.2 hc.2,
      Bool.or_self, Bool.false_eq_true, if_false, beq_iff_eq, List.length_cons]
    by_cases h1 : c = '\x7b'
    · rw [closesBraces, if_pos h1] at hb
      rw [if_pos h1, ih _ hcs hb hlen]
      congr 1
      omega
    · rw [closesBraces, if_neg h1] at hb
      rw [if_neg h1]
      by_cases h2 : c = '\x7d'
      · rw [if_pos h2] at hb
        cases depth with
        | zero => cases hb
        | succ depth =>
          have hb' : closesBraces depth cs = true := by simpa using hb
          rw [if_pos h2, if_neg (by omega), Nat.add_sub_cancel, ih _ hcs hb' hlen]
          congr 1
          omega
      · rw [if_neg h2] at hb
        rw [if_neg h2, ih _ hcs hb hlen]
        congr 1
        omega

theorem literalBody_hole {source : String} (h : IsHole source) {fuel : Nat}
    (hf : source.toList.length < fuel) :
    literalBody (fuel + 1) false single start taken buffer done
        ((Part.hole source).body ++ rest) =
      literalBody fuel false single start (taken + (Part.hole source).body.length) []
        (.hole source :: flushParts buffer done) rest := by
  have hend := holeEnd_append (taken + 2) rest h.no_quote h.closes hf
  have hq : ∀ cs, dropHead? single.delimiter ('$' :: cs) = none :=
    dropHead?_cons_of_ne (by decide) _
  have htake : (source.toList ++ '\x7d' :: rest).take source.toList.length = source.toList := by
    simp
  have hdrop : ('$' :: '\x7b' :: (source.toList ++ '\x7d' :: rest)).drop
      (source.toList.length + 3) =
      rest := by simp
  have hn : taken + 2 + source.toList.length + 1 - (taken + 2) - 1 = source.toList.length := by
    omega
  have hm : taken + 2 + source.toList.length + 1 - taken = source.toList.length + 3 := by omega
  simp only [Part.body, List.cons_append, List.append_assoc, List.nil_append, literalBody, hq,
    Option.isSome_none, Bool.false_eq_true, if_false, Bool.not_false, Bool.and_true, beq_iff_eq,
    hend, bind, Except.bind, hn, hm, htake, hdrop, h.trimmed, String.ofList_toList, if_true,
    List.length_cons, List.length_append, List.length_nil, Bool.false_and,
    show ('$' == '\n') = false by decide, show ('$' == '\\') = false by decide]
  congr 1
  omega

/-- The inside of a literal is read up to the closing quote. -/
theorem literalBody_body {parts : List Part} (hp : ∀ p ∈ parts, p.Writable) {fuel : Nat}
    (hf : (bodyOf parts).length < fuel) :
    literalBody fuel false single start taken buffer done (bodyOf parts ++ '\'' :: rest) =
      .ok (taken + (bodyOf parts).length + 1, fuseOnto buffer done parts) := by
  induction parts generalizing fuel taken buffer done with
  | nil =>
    obtain ⟨fuel, rfl⟩ := Nat.exists_eq_succ_of_ne_zero (by omega : fuel ≠ 0)
    rfl
  | cons p ps ih =>
    have hps : ∀ p ∈ ps, p.Writable := fun q hq => hp q (List.mem_cons_of_mem _ hq)
    rw [bodyOf_cons, List.length_append] at hf
    rw [bodyOf_cons, List.append_assoc]
    cases p with
    | text s =>
      have := length_le_length_escape s.toList
      simp only [Part.body] at hf ⊢
      obtain ⟨fuel, rfl⟩ : ∃ n, fuel = n + s.toList.length := ⟨fuel - s.toList.length, by omega⟩
      rw [literalBody_text, ih _ _ _ hps (by omega), List.length_append, Nat.add_assoc taken]
      rfl
    | hole source =>
      obtain ⟨fuel, rfl⟩ := Nat.exists_eq_succ_of_ne_zero (by omega : fuel ≠ 0)
      have hlen : (Part.hole source).body.length = source.toList.length + 3 := by simp [Part.body]
      rw [literalBody_hole _ _ _ _ _ (hp _ List.mem_cons_self) (by omega),
        ih _ _ _ hps (by omega), List.length_append, Nat.add_assoc taken]
      rfl

end Single

/-! ## Literals as words -/

theorem head_body (p : Part) : ∀ d ∈ p.body.head?, d ≠ '\'' := by
  cases p with
  | hole source => simp [Part.body]
  | text s =>
    cases hs : s.toList with
    | nil => simp [Part.body, hs]
    | cons c cs =>
      obtain ⟨d, ds, hd⟩ := List.exists_cons_of_ne_nil (escapeChar_ne_nil c)
      have := head_escapeChar c
      simp only [hd, List.head?_cons, Option.mem_def, Option.some.injEq, forall_eq'] at this
      simp [Part.body, hs, hd, this.1]

/-- The inside of a literal does not start with a quote. -/
theorem head_bodyOf (parts : List Part) : ∀ d ∈ (bodyOf parts).head?, d ≠ '\'' := by
  induction parts with
  | nil => simp
  | cons p ps ih =>
    rw [bodyOf_cons, List.head?_append]
    cases hb : p.body.head? with
    | none => simpa using ih
    | some d =>
      simp only [Option.some_or, Option.mem_def, Option.some.injEq, forall_eq']
      exact head_body p d hb

/-- The quotes of a literal are not tripled. -/
theorem quotesAt_body {parts : List Part} {rest : List Char} (hr : ∀ d ∈ rest.head?, d ≠ '\'') :
    quotesAt '\'' (bodyOf parts ++ '\'' :: rest) = single := by
  have h : dropHead? ['\'', '\''] (bodyOf parts ++ '\'' :: rest) = none := by
    cases hb : bodyOf parts with
    | nil =>
      cases rest with
      | nil => rfl
      | cons d ds => simp [dropHead?, Ne.symm (hr d rfl)]
    | cons d ds =>
      have := head_bodyOf parts d (by simp [hb])
      exact dropHead?_cons_of_ne this.symm _ _
  simp [quotesAt, h, single]

/-- A literal is cut off whole, in front of anything but one more quote. -/
theorem cutLexeme_quoted {parts : List Part} (hp : ∀ p ∈ parts, p.Writable) {rest : List Char}
    (hr : ∀ d ∈ rest.head?, d ≠ '\'') :
    cutLexeme '\'' (bodyOf parts ++ '\'' :: rest) =
      .ok ⟨.string, (bodyOf parts).length + 1, fused parts⟩ := by
  have hbody := literalBody_body 0 1 [] [] rest hp
    (show (bodyOf parts).length < 2 * (bodyOf parts ++ '\'' :: rest).length + 2 by
      simp only [List.length_append]
      omega)
  have hn : 0 + single.delimiter.length = 1 := rfl
  have hm : single.delimiter.length - 1 = 0 := rfl
  rw [cutLexeme, commentAt?_of_ne (by decide), rawMark?_of_ne (by decide) (by decide)]
  simp only [beq_self_eq_true, Bool.true_or, if_true, cutLiteral, literalAt,
    quotesAt_body hr, hn, hm, List.drop_zero, hbody, bind, Except.bind, pure, Except.pure, fused]
  congr 2
  omega

theorem newline_not_mem_bodyOf {parts : List Part}
    (h : ∀ source, Part.hole source ∈ parts → '\n' ∉ source.toList) : '\n' ∉ bodyOf parts := by
  intro hm
  obtain ⟨p, hp, hmem⟩ := List.mem_flatMap.1 hm
  cases p with
  | text s =>
    obtain ⟨c, -, hc⟩ := List.mem_flatMap.1 hmem
    exact newline_not_mem_escapeChar c hc
  | hole source =>
    simp only [Part.body, List.cons_append, List.mem_cons, List.mem_append, List.not_mem_nil,
      or_false] at hmem
    rcases hmem with hc | hc | hc | hc
    · exact absurd hc (by decide)
    · exact absurd hc (by decide)
    · exact h source hp hc
    · exact absurd hc (by decide)

/-- A text literal of some parts. -/
def Word.literal (parts : List Part) : Word := ⟨.string, String.ofList (quoted parts), fused parts⟩

theorem Word.text_literal (parts : List Part) :
    (Word.literal parts).text = String.ofList (quoted parts) := rfl

theorem stands_literal {parts : List Part} (hp : ∀ p ∈ parts, p.Writable)
    (hn : ∀ source, Part.hole source ∈ parts → '\n' ∉ source.toList) :
    (Word.literal parts).Stands := by
  refine ⟨by simp [Word.literal], ?_, '\'', bodyOf parts ++ ['\''], ?_, by decide, ?_⟩
  · have := newline_not_mem_bodyOf hn
    simp [Word.literal, quoted, this]
  · simp [Word.literal, quoted]
  · intro rest hrest
    have hr : ∀ d ∈ rest.head?, d ≠ '\'' := by
      intro d hd
      have := hrest d hd
      simp only [Word.meets, Word.literal, Bool.or_eq_true, bne_iff_ne] at this
      exact this.elim (fun h => (not_quote_of_isSoft h).1) id
    rw [List.append_assoc, List.singleton_append, cutLexeme_quoted hp hr]
    simp [Word.literal]

/-! ## Parts that come back -/

/-- Parts as a reader gives them: no plain text is empty, and no two of them are adjacent. -/
def Settled : List Part → Prop
  | [] => True
  | .hole _ :: ps => Settled ps
  | .text s :: ps => s ≠ "" ∧ (∀ t, ps.head? ≠ some (.text t)) ∧ Settled ps

theorem fuseOnto_of_settled {parts : List Part} (h : Settled parts) (done : List Part) :
    fuseOnto [] done parts = parts.reverse ++ done := by
  fun_induction Settled parts generalizing done with
  | case1 => rfl
  | case2 source ps ih => simp [fuseOnto, flushParts, ih h]
  | case3 s ps ih =>
    obtain ⟨hs, hnext, hps⟩ := h
    have hflush : flushParts s.toList.reverse done = .text s :: done := by
      have : s.toList ≠ [] := by simpa using hs
      simp [flushParts, this]
    cases ps with
    | nil => simp [fuseOnto, hflush]
    | cons p ps =>
      cases p with
      | text t => exact absurd rfl (hnext t)
      | hole source =>
        have := ih hps (.text s :: done)
        simp only [fuseOnto, List.append_nil, hflush] at this ⊢
        simpa [flushParts] using this

theorem fused_eq_self {parts : List Part} (h : Settled parts) : fused parts = parts := by
  rw [fused, fuseOnto_of_settled h, List.append_nil, List.reverse_reverse]

end WidgetBridge.WidgetGrammar
