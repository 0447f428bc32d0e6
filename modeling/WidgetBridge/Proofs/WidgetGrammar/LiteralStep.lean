import WidgetBridge.Proofs.Text.Layout
import WidgetBridge.WidgetGrammar.Lexeme

/-!
# Steps inside literals

The scanners of literals and of the expressions in them call each other.  `bodyStep` and `holeStep`
say what each of them does at one place, without fuel, and `literalBody_succ` and `holeEnd_succ`
that the scanners take these steps.  What holds of the scanners is shown of their steps first: so
they stop in the text that they are given, or name a fault in it (`Halts`, by induction on the fuel
of both).
-/

namespace WidgetBridge.WidgetGrammar

open WidgetBridge.Text WidgetBridge.Number

/-! ## Quotes and escapes -/

theorem length_le_of_isSome_dropHead? {pat cs : List Char} (h : (dropHead? pat cs).isSome = true) :
    pat.length ≤ cs.length := by
  obtain ⟨rest, hrest⟩ := Option.isSome_iff_exists.1 h
  rw [dropHead?_eq_some_iff.1 hrest, List.length_append]
  exact Nat.le_add_right _ _

theorem length_delimiter_pos (q : Quotes) : 0 < q.delimiter.length := by
  unfold Quotes.delimiter
  split_ifs <;> simp

theorem length_delimiter_quotesAt_le (mark : Char) (cs : List Char) :
    (quotesAt mark cs).delimiter.length ≤ cs.length + 1 := by
  unfold quotesAt Quotes.delimiter
  dsimp only
  split_ifs with h
  · have := length_le_of_isSome_dropHead? h
    simp only [List.length_cons, List.length_nil] at this ⊢
    omega
  · simp

/-- Whether a character is a quote mark. -/
def IsQuote (c : Char) : Prop := c = '\'' ∨ c = '"'

theorem isQuote_iff {c : Char} : (c == '\'' || c == '"') = true ↔ IsQuote c := by
  rw [Bool.or_eq_true, beq_iff_eq, beq_iff_eq, IsQuote]

theorem two_le_of_escapeAt {taken n : Nat} {cs : List Char} {d : Char}
    (h : escapeAt taken cs = .ok (d, n)) :
    2 ≤ n := by
  have hhex (ds : List Char) (k : Nat) (hk : 2 ≤ k)
      (h : (do return (← hexChar ds, k) : Except Fault (Char × Nat)) = .ok (d, n)) : 2 ≤ n := by
    cases hchar : hexChar ds with
    | error e =>
      rw [hchar] at h
      cases h
    | ok d =>
      rw [hchar] at h
      cases h
      exact hk
  unfold escapeAt at h
  split at h
  · cases h
  · dsimp only at h
    split_ifs at h
    exact hhex _ _ (by omega) h
  · exact hhex _ _ (by omega) h
  · exact hhex _ _ (by omega) h
  · cases h
    exact Nat.le_refl _

/-! ## Inside a literal -/

/-- What comes next inside a literal. -/
inductive BodyStep where
  | fails (e : Fault)
  /-- The literal ends behind some characters, with these parts. -/
  | ends (n : Nat) (parts : List Part)
  /-- Some characters are taken, perhaps more than there are. -/
  | goes (n : Nat) (buffer : List Char) (parts : List Part)
  /-- An expression starts. -/
  | opens (inner : List Char) (parts : List Part)

/-- What the scanner of literals does behind a dollar sign. -/
def dollarStep (buffer : List Char) (parts : List Part) : List Char → BodyStep
  | '\x7b' :: inner => .opens inner (flushParts buffer parts)
  | d :: rest =>
    if isLetter d || d == '_' then
      let name := (d :: rest).takeWhile fun e => isLetter e || isDigit e || e == '_'
      .goes (name.length + 1) [] (.hole (String.ofList name) :: flushParts buffer parts)
    else .goes 1 ('$' :: buffer) parts
  | [] => .goes 1 ('$' :: buffer) parts

/-- What the scanner of literals does at a place. -/
def bodyStep (raw : Bool) (q : Quotes) (start taken : Nat) (buffer : List Char)
    (parts : List Part) :
    List Char → BodyStep
  | [] => .fails (.at start "unterminated string literal")
  | c :: rest =>
    if (dropHead? q.delimiter (c :: rest)).isSome then .ends q.delimiter.length
      (flushParts buffer parts)
    else if c == '\n' && !q.triple then .fails (.at start "unterminated string literal")
    else if c == '\\' && !raw then
      match escapeAt taken rest with
      | .error e => .fails e
      | .ok (d, n) => .goes n (d :: buffer) parts
    else if c == '$' && !raw then dollarStep buffer parts rest
    else .goes 1 (c :: buffer) parts

/-- The scan of a literal after a step. -/
def BodyStep.run (fuel : Nat) (raw : Bool) (q : Quotes) (start taken : Nat) (cs : List Char) :
    BodyStep → Except Fault (Nat × List Part)
  | .fails e => .error e
  | .ends n parts => .ok (taken + n, parts)
  | .goes n buffer parts => literalBody fuel raw q start (taken + n) buffer parts (cs.drop n)
  | .opens inner parts => do
    let stop ← holeEnd fuel 1 (taken + 2) inner
    literalBody fuel raw q start stop []
      (.hole (String.ofList (trimChars (inner.take (stop - (taken + 2) - 1)))) :: parts)
        (cs.drop (stop - taken))

theorem literalBody_nil (fuel : Nat) (raw : Bool) (q : Quotes) (start taken : Nat)
    (buffer : List Char) (parts : List Part) :
    literalBody fuel raw q start taken buffer parts [] =
      .error (.at start "unterminated string literal") := by
  cases fuel <;> rfl

theorem literalBody_succ (fuel : Nat) (raw : Bool) (q : Quotes) (start taken : Nat)
    (buffer : List Char) (parts : List Part) (cs : List Char) :
    literalBody (fuel + 1) raw q start taken buffer parts cs =
      (bodyStep raw q start taken buffer parts cs).run fuel raw q start taken cs := by
  cases cs with
  | nil => rfl
  | cons c rest =>
    unfold literalBody bodyStep
    dsimp only
    split_ifs with hend hline hescape hdollar
    · rfl
    · rfl
    · cases escapeAt taken rest <;> rfl
    · rw [Bool.and_eq_true, beq_iff_eq] at hdollar
      obtain ⟨rfl, -⟩ := hdollar
      cases rest with
      | nil => rfl
      | cons d rest =>
        by_cases hd : d = '\x7b'
        · subst hd
          rfl
        · simp only [dollarStep]
          split_ifs
          · rw [Nat.add_assoc, Nat.add_comm 1]
            rfl
          · rfl
    · rfl

/-- A scanner that finds an end behind some characters has not taken them all. -/
theorem lt_length_of_literalBody_drop {fuel : Nat} {raw : Bool} {q : Quotes} {start taken n : Nat}
    {buffer : List Char} {parts : List Part} {cs : List Char} {r : Nat × List Part}
    (h : literalBody fuel raw q start taken buffer parts (cs.drop n) = .ok r) : n < cs.length := by
  by_contra hn
  rw [List.drop_of_length_le (by omega), literalBody_nil] at h
  cases h

/-! ## Inside an expression -/

/-- What comes next inside an expression. -/
inductive HoleStep where
  | fails (e : Fault)
  | ends
  /-- A character is taken, and so many braces are open behind it. -/
  | goes (depth : Nat)
  /-- A literal starts. -/
  | opens (q : Quotes)

/-- What the scanner of expressions does at a place. -/
def holeStep (depth taken : Nat) : List Char → HoleStep
  | [] => .fails (.at taken "unterminated string interpolation")
  | c :: cs =>
    if c == '\'' || c == '"' then .opens (quotesAt c cs)
    else if c == '\x7b' then .goes (depth + 1)
    else if c == '\x7d' then if depth ≤ 1 then .ends else .goes (depth - 1)
    else .goes depth

/-- The scan of an expression after a step. -/
def HoleStep.run (fuel depth taken : Nat) (cs : List Char) : HoleStep → Except Fault Nat
  | .fails e => .error e
  | .ends => .ok (taken + 1)
  | .goes depth => holeEnd fuel depth (taken + 1) (cs.drop 1)
  | .opens q => do
    let n := q.delimiter.length
    let (stop, _) ← literalBody fuel false q taken (taken + n) [] [] (cs.drop n)
    holeEnd fuel depth stop (cs.drop (stop - taken))

theorem holeEnd_succ (fuel depth taken : Nat) (cs : List Char) :
    holeEnd (fuel + 1) depth taken cs = (holeStep depth taken cs).run fuel depth taken cs := by
  cases cs with
  | nil => rfl
  | cons c cs =>
    unfold holeEnd holeStep
    dsimp only
    split_ifs <;> rfl

/-! ## Faults -/

/-- What the scanners say when they give up. -/
def faultMessages : List String :=
  ["unterminated string literal", "malformed unicode escape", "unterminated string interpolation",
    "unterminated block comment"]

/-- Faults of lexemes that are not reported with their place. -/
inductive LexFault (cs : List Char) : Failure → Prop
  /-- The digits of an escape name no character. -/
  | escape {rest : List Char} {taken : Nat} {f : Failure} :
    '\\' :: rest <:+: cs → escapeAt taken rest = .error (.other f) → LexFault cs f
  /-- A digit that is no decimal digit starts no number. -/
  | digit {c : Char} : c ∈ cs → isAnyDigit c = true → isDecimal c = false → LexFault cs .unsupported

theorem error_of_hexChar {cs : List Char} {e : Fault} (h : hexChar cs = .error e) :
    e = .other .badText ∨ e = .other .tooLarge := by
  unfold hexChar codePoint at h
  split at h
  · split_ifs at h <;> cases h
    · exact .inr rfl
    · exact .inl rfl
  · cases h
    exact .inl rfl

/-- What is wrong with an escape. -/
theorem error_of_escapeAt {taken : Nat} {cs : List Char} {e : Fault}
    (h : escapeAt taken cs = .error e) :
    (∃ message ∈ faultMessages, e = .at taken message) ∨ e = .other .badText ∨
      e = .other .tooLarge := by
  have hhex (ds : List Char) (n : Nat)
      (h : (do return (← hexChar ds, n) : Except Fault (Char × Nat)) = .error e) :
      e = .other .badText ∨ e = .other .tooLarge := by
    cases hchar : hexChar ds with
    | ok d =>
      rw [hchar] at h
      cases h
    | error f =>
      rw [hchar] at h
      cases h
      exact error_of_hexChar hchar
  unfold escapeAt at h
  split at h
  · cases h
    exact .inl ⟨_, by decide, rfl⟩
  · dsimp only at h
    split_ifs at h
    · cases h
      exact .inl ⟨_, by decide, rfl⟩
    · exact .inr (hhex _ _ h)
  · exact .inr (hhex _ _ h)
  · exact .inr (hhex _ _ h)
  · cases h

/-- What a fault without a place raises. -/
theorem LexFault.eq {cs : List Char} {f : Failure} (h : LexFault cs f) :
    f = .badText ∨ f = .tooLarge ∨ f = .unsupported := by
  cases h with
  | digit => exact .inr (.inr rfl)
  | escape _ h =>
    rcases error_of_escapeAt h with ⟨m, -, heq⟩ | heq | heq
    · cases heq
    · cases heq
      exact .inl rfl
    · cases heq
      exact .inr (.inl rfl)

theorem LexFault.mono {cs ds : List Char} {f : Failure} (h : LexFault cs f) (hpart : cs <:+: ds) :
    LexFault ds f := by
  cases h with
  | escape hrest he => exact .escape (hrest.trans hpart) he
  | digit hc hany hdec => exact .digit (hpart.subset hc) hany hdec

/-- A fault in a text: it is reported between two distances, or its cause stands in the text. -/
def Fault.IsIn (low high : Nat) (cs : List Char) : Fault → Prop
  | .at distance message => low ≤ distance ∧ distance ≤ high ∧ message ∈ faultMessages
  | .other f => LexFault cs f

theorem Fault.IsIn.mono {low high low' high' : Nat} {cs ds : List Char} {e : Fault}
    (h : e.IsIn low high cs) (hlow : low' ≤ low) (hhigh : high ≤ high') (hpart : cs <:+: ds) :
    e.IsIn low' high' ds := by
  cases e with
  | «at» distance message =>
    obtain ⟨hle, hge, hmessage⟩ := h
    exact ⟨by omega, by omega, hmessage⟩
  | other f => exact LexFault.mono h hpart

/-- An escape is at fault where its backslash stands. -/
theorem isIn_of_escapeAt {taken : Nat} {cs : List Char} {e : Fault}
    (h : escapeAt taken cs = .error e) :
    e.IsIn taken taken ('\\' :: cs) := by
  cases e with
  | other f => exact .escape List.infix_rfl h
  | «at» distance message =>
    rcases error_of_escapeAt h with ⟨m, hm, heq⟩ | heq | heq
    · cases heq
      exact ⟨Nat.le_refl _, Nat.le_refl _, hm⟩
    · cases heq
    · cases heq

/-! ## What the steps keep to -/

/-- What is known of a step inside a literal. -/
def BodyStep.Fits (start taken : Nat) (cs : List Char) : BodyStep → Prop
  | .fails e => start ≤ taken → e.IsIn start (taken + cs.length) cs
  | .ends n _ => n ≤ cs.length
  | .goes n _ _ => 0 < n
  | .opens inner _ => ∃ c d, cs = c :: d :: inner

theorem fits_dollarStep (start taken : Nat) (buffer : List Char) (parts : List Part)
    (cs : List Char) :
    (dollarStep buffer parts cs).Fits start taken ('$' :: cs) := by
  unfold dollarStep
  split
  · exact ⟨_, _, rfl⟩
  · split_ifs
    · exact Nat.succ_pos _
    · exact Nat.one_pos
  · exact Nat.one_pos

theorem fits_bodyStep (raw : Bool) (q : Quotes) (start taken : Nat) (buffer : List Char)
    (parts : List Part) (cs : List Char) :
    (bodyStep raw q start taken buffer parts cs).Fits start taken cs := by
  have hunended (cs : List Char) :
      (BodyStep.fails (.at start "unterminated string literal")).Fits start taken cs :=
    fun hstart => ⟨Nat.le_refl _, Nat.le_trans hstart (Nat.le_add_right _ _), by decide⟩
  cases cs with
  | nil => exact hunended []
  | cons c rest =>
    unfold bodyStep
    dsimp only
    split_ifs with hend hline hescape hdollar
    · exact length_le_of_isSome_dropHead? hend
    · exact hunended _
    · rw [Bool.and_eq_true, beq_iff_eq] at hescape
      obtain ⟨rfl, -⟩ := hescape
      cases hesc : escapeAt taken rest with
      | error e =>
        exact fun hstart => (isIn_of_escapeAt hesc).mono hstart
          (Nat.le_add_right _ _) List.infix_rfl
      | ok d => exact Nat.lt_of_lt_of_le Nat.two_pos (two_le_of_escapeAt hesc)
    · rw [Bool.and_eq_true, beq_iff_eq] at hdollar
      obtain ⟨rfl, -⟩ := hdollar
      exact fits_dollarStep _ _ _ _ _
    · exact Nat.one_pos

/-- What is known of a step inside an expression. -/
def HoleStep.Fits (taken : Nat) (cs : List Char) : HoleStep → Prop
  | .fails e => e.IsIn taken (taken + cs.length) cs
  | .ends | .goes _ => 1 ≤ cs.length
  | .opens q => q.delimiter.length ≤ cs.length ∧ IsQuote q.mark

theorem fits_holeStep (depth taken : Nat) (cs : List Char) :
    (holeStep depth taken cs).Fits taken cs := by
  cases cs with
  | nil => exact ⟨Nat.le_refl _, Nat.le_refl _, by decide⟩
  | cons c cs =>
    have hpos : 1 ≤ (c :: cs).length := Nat.succ_pos _
    unfold holeStep
    dsimp only
    split_ifs with hquote
    · exact ⟨length_delimiter_quotesAt_le c cs, isQuote_iff.1 hquote⟩
    all_goals exact hpos

/-! ## What the scanners keep to -/

/-- How a scanner comes out that is given `cs` behind `taken` characters: it stops in `cs`, or finds
a fault there, which it may report as far back as `low`. -/
def StopsIn {α : Type} (low taken : Nat) (cs : List Char) (stop : α → Nat) : Except Fault α → Prop
  | .ok a => taken ≤ stop a ∧ stop a ≤ taken + cs.length
  | .error e => e.IsIn low (taken + cs.length) cs

theorem StopsIn.of_drop {α : Type} {low low' taken n : Nat} {cs : List Char} {stop : α → Nat}
    {x : Except Fault α} (h : StopsIn low' (taken + n) (cs.drop n) stop x) (hlow : low ≤ low')
    (hn : n ≤ cs.length) :
    StopsIn low taken cs stop x := by
  have hlength := List.length_drop (i := n) (l := cs)
  cases x with
  | ok a =>
    obtain ⟨hle, hstop⟩ := h
    exact ⟨by omega, by omega⟩
  | error e => exact Fault.IsIn.mono h hlow (by omega) (List.drop_suffix _ _).isInfix

/-- With some fuel, both scanners stop in the text that they are given. -/
structure Halts (fuel : Nat) : Prop where
  body : ∀ (raw : Bool) (q : Quotes) (start taken : Nat) (buffer : List Char) (parts : List Part)
    (cs : List Char),
    start ≤ taken →
      StopsIn start taken cs Prod.fst (literalBody fuel raw q start taken buffer parts cs)
  hole : ∀ (depth taken : Nat) (cs : List Char), StopsIn taken taken cs id
    (holeEnd fuel depth taken cs)

section Halts

variable {fuel : Nat}

/-- A scan that goes on behind some characters.  Where there are not so many, it is at fault at the
start. -/
theorem Halts.body_drop (ih : Halts fuel) (raw : Bool) (q : Quotes) {start taken : Nat}
    (hstart : start ≤ taken) (n : Nat) (buffer : List Char) (parts : List Part) (cs : List Char) :
    StopsIn start taken cs Prod.fst
      (literalBody fuel raw q start (taken + n) buffer parts (cs.drop n)) := by
  by_cases hn : n ≤ cs.length
  · exact (ih.body raw q start (taken + n) buffer parts (cs.drop n) (by omega)).of_drop
      (Nat.le_refl _) hn
  · rw [List.drop_of_length_le (by omega), literalBody_nil]
    exact ⟨Nat.le_refl _, by omega, by decide⟩

theorem Halts.body_succ (ih : Halts fuel) (raw : Bool) (q : Quotes) {start taken : Nat}
    (hstart : start ≤ taken) (buffer : List Char) (parts : List Part) (cs : List Char) :
    StopsIn start taken cs Prod.fst (literalBody (fuel + 1) raw q start taken buffer parts cs) := by
  rw [literalBody_succ]
  have hfits := fits_bodyStep raw q start taken buffer parts cs
  generalize bodyStep raw q start taken buffer parts cs = step at hfits ⊢
  cases step with
  | fails e => exact hfits hstart
  | ends n parts => exact ⟨Nat.le_add_right _ _, Nat.add_le_add_left hfits _⟩
  | goes n buffer parts => exact ih.body_drop raw q hstart n buffer parts cs
  | opens inner parts =>
    obtain ⟨c, d, rfl⟩ := hfits
    have hhole := ih.hole 1 (taken + 2) inner
    dsimp only [BodyStep.run]
    cases hstop : holeEnd fuel 1 (taken + 2) inner with
    | error e =>
      rw [hstop] at hhole
      have hinner : inner <:+ c :: d :: inner := (List.suffix_cons _ _).trans (List.suffix_cons _ _)
      refine Fault.IsIn.mono hhole (by omega) ?_ hinner.isInfix
      simp only [List.length_cons]
      omega
    | ok stop =>
      rw [hstop] at hhole
      have hle : taken + 2 ≤ stop := hhole.1
      obtain ⟨n, rfl⟩ : ∃ n, stop = taken + n := Nat.exists_eq_add_of_le (by omega)
      simp only [bind, Except.bind, Nat.add_sub_cancel_left]
      exact ih.body_drop raw q hstart n _ _ _

theorem Halts.hole_succ (ih : Halts fuel) (depth taken : Nat) (cs : List Char) :
    StopsIn taken taken cs id (holeEnd (fuel + 1) depth taken cs) := by
  rw [holeEnd_succ]
  have hfits := fits_holeStep depth taken cs
  generalize holeStep depth taken cs = step at hfits ⊢
  cases step with
  | fails e => exact hfits
  | ends => exact ⟨Nat.le_add_right _ _, Nat.add_le_add_left hfits _⟩
  | goes depth => exact (ih.hole depth (taken + 1) (cs.drop 1)).of_drop (Nat.le_add_right _ _) hfits
  | opens q =>
    have hlit := ih.body_drop false q (Nat.le_refl taken) q.delimiter.length [] [] cs
    dsimp only [HoleStep.run]
    cases hbody : literalBody fuel false q taken (taken + q.delimiter.length) [] []
      (cs.drop q.delimiter.length) with
    | error e =>
      rw [hbody] at hlit
      exact hlit
    | ok r =>
      rw [hbody] at hlit
      obtain ⟨hle, hstop⟩ := hlit
      obtain ⟨n, hn⟩ := Nat.exists_eq_add_of_le hle
      have hrest : StopsIn (taken + n) (taken + n) (cs.drop n) id
          (holeEnd fuel depth r.1 (cs.drop (r.1 - taken))) := by
        rw [hn, Nat.add_sub_cancel_left]
        exact ih.hole depth (taken + n) (cs.drop n)
      exact hrest.of_drop (Nat.le_add_right taken n) (by omega)

/-- Both scanners stop in the text that they are given. -/
theorem halts (fuel : Nat) : Halts fuel := by
  induction fuel with
  | zero =>
    constructor
    · intro raw q start taken buffer parts cs hstart
      exact ⟨Nat.le_refl _, by omega, by decide⟩
    · intro depth taken cs
      exact ⟨Nat.le_refl _, by omega, by decide⟩
  | succ fuel ih =>
    constructor
    · intro raw q start taken buffer parts cs hstart
      exact ih.body_succ raw q hstart buffer parts cs
    · exact ih.hole_succ

end Halts

/-- A literal ends in the text, after what was taken before. -/
theorem stop_of_literalBody {fuel : Nat} {raw : Bool} {q : Quotes} {start taken : Nat}
    {buffer : List Char} {parts : List Part} {cs : List Char} {r : Nat × List Part}
    (hstart : start ≤ taken) (h : literalBody fuel raw q start taken buffer parts cs = .ok r) :
    taken ≤ r.1 ∧ r.1 ≤ taken + cs.length := by
  have hstops := (halts fuel).body raw q start taken buffer parts cs hstart
  rwa [h] at hstops

theorem stop_of_holeEnd {fuel depth taken stop : Nat} {cs : List Char}
    (h : holeEnd fuel depth taken cs = .ok stop) :
    taken ≤ stop ∧ stop ≤ taken + cs.length := by
  have hstops := (halts fuel).hole depth taken cs
  rwa [h] at hstops

end WidgetBridge.WidgetGrammar
