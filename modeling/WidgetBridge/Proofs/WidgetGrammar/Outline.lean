import WidgetBridge.Proofs.WidgetGrammar.Quoted

/-!
# Outlines of widget source

An outline is a forest of pieces: words with the blanks before them, and brackets around further
pieces.  `spellAll` writes an outline as source.  If the outline is sound, reading the source gives
a forest of the same shape:

* `scanFrom_of_cutLexeme` and its neighbours say what the scanner does in one step;
* `SoundAll.scans` cuts the source of an outline into its words;
* `SoundAll.builds` puts the words of an outline together again;
* `read_spellAll` is the result for a whole source.

Gaps with a line feed are not kept apart (`GapLike`), since the depth of a piece changes them.
-/

namespace WidgetBridge.WidgetGrammar

open WidgetBridge.Text

/-! ## Pieces -/

/-- The pairs of brackets. -/
inductive Bracket where
  | round
  | square
  | curly
  deriving Repr, DecidableEq, Inhabited

namespace Bracket

/-- The opening bracket. -/
def opener : Bracket → String
  | round => "("
  | square => "["
  | curly => "\x7b"

/-- The closing bracket. -/
def closer : Bracket → String
  | round => ")"
  | square => "]"
  | curly => "\x7d"

end Bracket

/-- A word with the blanks before it, or brackets around pieces with the blanks before each of the
two. -/
inductive Piece where
  | word (gap : String) (w : Word)
  | group (gap : String) (b : Bracket) (inner : List Piece) (endGap : String)
  deriving Inhabited

mutual

/-- The source of a piece. -/
def Piece.spell : Piece → List Char
  | .word g w => g.toList ++ w.text.toList
  | .group g b inner g' =>
    g.toList ++ (b.opener.toList ++ (spellAll inner ++ (g'.toList ++ b.closer.toList)))

/-- The source of an outline. -/
def spellAll : List Piece → List Char
  | [] => []
  | p :: ps => p.spell ++ spellAll ps

end

mutual

/-- The words of a piece with their gaps. -/
def Piece.words : Piece → List (String × Word)
  | .word g w => [(g, w)]
  | .group g b inner g' => (g, .mark b.opener) :: (wordsOf inner ++ [(g', .mark b.closer)])

/-- The words of an outline with their gaps. -/
def wordsOf : List Piece → List (String × Word)
  | [] => []
  | p :: ps => p.words ++ wordsOf ps

end

/-- Whether a text is made of spaces and line feeds. -/
def isGap (g : String) : Bool := g.toList.all fun c => c == ' ' || c == '\n'

/-- Whether a word is a bracket. -/
def Word.isBracket (w : Word) : Bool :=
  w.kind == .punct && ((closerOf w.text).isSome || (openerOf w.text).isSome)

/-- Whether a character may follow a piece directly. -/
def Piece.meets : Piece → Char → Bool
  | .word _ w, d => w.meets d
  | .group _ _ _ _, _ => true

mutual

/-- A piece whose words can be read back. -/
def Piece.Sound : Piece → Prop
  | .word g w => isGap g = true ∧ w.Stands ∧ w.isBracket = false
  | .group g _ inner g' => isGap g = true ∧ isGap g' = true ∧ SoundAll inner

/-- An outline whose words can be read back: none of them runs into the next. -/
def SoundAll : List Piece → Prop
  | [] => True
  | p :: ps => p.Sound ∧ (∀ d ∈ (spellAll ps).head?, p.meets d = true) ∧ SoundAll ps

end

/-- Whether a character may follow an outline directly. -/
def endMeets (ps : List Piece) (d : Char) : Bool :=
  match ps.getLast? with
  | some p => p.meets d
  | none => true

@[simp] theorem spellAll_nil : spellAll [] = [] := rfl

@[simp] theorem spellAll_cons (p : Piece) (ps : List Piece) :
    spellAll (p :: ps) = p.spell ++ spellAll ps := rfl

@[simp] theorem wordsOf_cons (p : Piece) (ps : List Piece) :
    wordsOf (p :: ps) = p.words ++ wordsOf ps := rfl

theorem spellAll_append (ps qs : List Piece) :
    spellAll (ps ++ qs) = spellAll ps ++ spellAll qs := by
  induction ps with
  | nil => rfl
  | cons p ps ih => simp [ih]

@[simp] theorem endMeets_nil (d : Char) : endMeets [] d = true := rfl

@[simp] theorem endMeets_singleton (p : Piece) (d : Char) : endMeets [p] d = p.meets d := rfl

@[simp] theorem endMeets_cons_cons (p q : Piece) (ps : List Piece) (d : Char) :
    endMeets (p :: q :: ps) d = endMeets (q :: ps) d := by
  simp [endMeets, List.getLast?_cons_cons]

theorem Piece.meets_of_isSoft (p : Piece) {d : Char} (h : isSoft d = true) : p.meets d = true := by
  cases p with
  | word g w => exact w.meets_of_isSoft h
  | group => rfl

theorem endMeets_of_isSoft (ps : List Piece) {d : Char} (h : isSoft d = true) :
    endMeets ps d = true := by
  unfold endMeets
  split
  · exact Piece.meets_of_isSoft _ h
  · rfl

/-- A gap starts with a soft character. -/
theorem isSoft_of_isGap {g : String} (hg : isGap g = true) {d : Char} (hd : d ∈ g.toList) :
    isSoft d = true := by
  have := List.all_eq_true.1 hg d hd
  rcases Bool.or_eq_true_iff.1 this with h | h <;> simp [beq_iff_eq.1 h, isSoft]

theorem isBlank_of_isGap {g : String} (hg : isGap g = true) {d : Char} (hd : d ∈ g.toList) :
    isBlank d = true := by
  have := List.all_eq_true.1 hg d hd
  rcases Bool.or_eq_true_iff.1 this with h | h <;> rw [beq_iff_eq.1 h] <;> rfl

theorem Word.Stands.text_ne {w : Word} (h : w.Stands) : w.text.toList ≠ [] := by
  obtain ⟨c, cs, hw, -⟩ := h.cut
  simp [hw]

theorem Piece.Sound.spell_ne {p : Piece} (h : p.Sound) : p.spell ≠ [] := by
  cases p with
  | word g w => simp [Piece.spell, h.2.1.text_ne]
  | group g b inner g' => cases b <;> simp [Piece.spell, Bracket.opener]

theorem stands_opener (b : Bracket) : (Word.mark b.opener).Stands :=
  stands_of_isPlain (by cases b <;> decide)

theorem stands_closer (b : Bracket) : (Word.mark b.closer).Stands :=
  stands_of_isPlain (by cases b <;> decide)

theorem meets_opener (b : Bracket) (d : Char) : (Word.mark b.opener).meets d = true :=
  Word.meets_of_isSoftMark rfl (by cases b <;> decide) d

theorem meets_closer (b : Bracket) (d : Char) : (Word.mark b.closer).meets d = true :=
  Word.meets_of_isSoftMark rfl (by cases b <;> decide) d

/-- What closes a group starts with a soft character, and so may follow everything. -/
theorem isSoft_head_closing {b : Bracket} {g : String} (hg : isGap g = true) (rest : List Char) :
    ∀ d ∈ (g.toList ++ (b.closer.toList ++ rest)).head?, isSoft d = true := by
  intro d hd
  cases h : g.toList with
  | nil =>
    rw [h, List.nil_append] at hd
    cases b <;> (simp only [Bracket.closer] at hd; cases hd; decide)
  | cons c cs =>
    rw [h, List.cons_append, List.head?_cons, Option.mem_def, Option.some.injEq] at hd
    subst hd
    exact isSoft_of_isGap hg (by simp [h])

/-! ## Steps of the scanner -/

section Steps

variable {c : Char} {cs : List Char} (stack : List (String × Place)) (blank : List Char)
    (spot : Spot)

theorem scanFrom_nil : scanFrom [] blank spot [] = .ok [] := by
  rw [scanFrom.eq_def]

theorem scanFrom_unclosed (text : String) (place : Place) :
    scanFrom ((text, place) :: stack) blank spot [] =
    .error (.malformed ("unclosed '" ++ text ++ "'") place) := by
  rw [scanFrom.eq_def]

theorem scanFrom_blank (hc : isBlank c = true) :
    scanFrom stack blank spot (c :: cs) = scanFrom stack (c :: blank) (spot.step c) cs := by
  rw [scanFrom.eq_def]
  dsimp only
  rw [if_pos hc]

theorem scanFrom_of_cutLexeme {cut : Cut} (hc : isBlank c = false)
    (hcut : cutLexeme c cs = .ok cut) :
    scanFrom stack blank spot (c :: cs) = (do
      let chars := c :: cs.take cut.more
      let stack ← nextOpen stack cut.kind (String.ofList chars) spot.place
      let rest ← scanFrom stack [] (spot.advance chars) (cs.drop cut.more)
      return { kind := cut.kind, text := String.ofList chars, blank := String.ofList blank.reverse
               offset := spot.offset, place := spot.place, parts := cut.parts } :: rest) := by
  rw [scanFrom.eq_def]
  dsimp only
  rw [hc, hcut]
  rfl

theorem scanFrom_of_fault {distance : Nat} {message : String} (hc : isBlank c = false)
    (hcut : cutLexeme c cs = .error (.at distance message)) : scanFrom stack blank spot (c :: cs) =
      .error (.malformed message (spot.advance ((c :: cs).take distance)).place) := by
  rw [scanFrom.eq_def]
  dsimp only
  rw [hc, hcut]
  rfl

theorem scanFrom_of_cause {cause : Failure} (hc : isBlank c = false)
    (hcut : cutLexeme c cs = .error (.other cause)) :
    scanFrom stack blank spot (c :: cs) = .error cause := by
  rw [scanFrom.eq_def]
  dsimp only
  rw [hc, hcut]
  rfl

end Steps

/-! ## From source to words -/

theorem scanFrom_gap {g : List Char} (hg : ∀ c ∈ g, isBlank c = true)
    (stack : List (String × Place)) (blank : List Char) (spot : Spot) (rest : List Char) :
    scanFrom stack blank spot (g ++ rest) =
      scanFrom stack (g.reverse ++ blank) (spot.advance g) rest := by
  induction g generalizing blank spot with
  | nil => rfl
  | cons c cs ih =>
    rw [List.cons_append, scanFrom_blank _ _ _ (hg c List.mem_cons_self),
      ih fun d hd => hg d (List.mem_cons_of_mem _ hd)]
    simp [Spot.advance]

/-- The word of a lexeme with the gap before it. -/
def Lexeme.spoken (l : Lexeme) : String × Word := (l.blank, l.word)

/-- What is cut off after a gap is the next lexeme, and scanning goes on behind it. -/
theorem scanFrom_cut_at {g : String} (hg : isGap g = true) {w : Word} {c : Char}
    {cs rest : List Char} (hc : w.text.toList = c :: cs) (hb : isBlank c = false)
    (hcut : cutLexeme c (cs ++ rest) = .ok ⟨w.kind, cs.length, w.parts⟩)
    {stack : List (String × Place)} {stack' : Place → List (String × Place)}
    (hs : ∀ place, nextOpen stack w.kind w.text place = .ok (stack' place)) (spot : Spot) :
    ∃ l, l.spoken = (g, w) ∧
      scanFrom stack [] spot (g.toList ++ (w.text.toList ++ rest)) =
        (scanFrom (stack' l.place) [] ((spot.advance g.toList).advance w.text.toList) rest).map
          (l :: ·) := by
  have htext : String.ofList (c :: cs) = w.text := by rw [← hc, String.ofList_toList]
  refine ⟨⟨w.kind, w.text, g, (spot.advance g.toList).offset, (spot.advance g.toList).place,
    w.parts⟩, rfl, ?_⟩
  rw [scanFrom_gap (fun d hd => isBlank_of_isGap hg hd), hc, List.cons_append,
    scanFrom_of_cutLexeme _ _ _ hb hcut]
  simp only [List.take_left, List.drop_left, htext, hs, List.append_nil, List.reverse_reverse,
    String.ofList_toList]
  rfl

theorem scanFrom_cut {g : String} (hg : isGap g = true) {w : Word} {c : Char} {cs rest : List Char}
    (hc : w.text.toList = c :: cs) (hb : isBlank c = false)
    (hcut : cutLexeme c (cs ++ rest) = .ok ⟨w.kind, cs.length, w.parts⟩)
    {stack : List (String × Place)} {stack' : Place → List (String × Place)}
    (hs : ∀ place, nextOpen stack w.kind w.text place = .ok (stack' place)) (spot : Spot) :
    ∃ l spot', l.spoken = (g, w) ∧
      scanFrom stack [] spot (g.toList ++ (w.text.toList ++ rest)) =
        (scanFrom (stack' l.place) [] spot' rest).map (l :: ·) :=
  let ⟨l, hl, hscan⟩ := scanFrom_cut_at hg hc hb hcut hs spot
  ⟨l, _, hl, hscan⟩

/-- A word after a gap is the next lexeme, in front of everything that may follow it. -/
theorem scanFrom_word {g : String} (hg : isGap g = true) {w : Word} (hw : w.Stands)
    (rest : List Char) (hr : ∀ d ∈ rest.head?, w.meets d = true) {stack : List (String × Place)}
    {stack' : Place → List (String × Place)}
    (hs : ∀ place, nextOpen stack w.kind w.text place = .ok (stack' place)) (spot : Spot) :
    ∃ l spot', l.spoken = (g, w) ∧
      scanFrom stack [] spot (g.toList ++ (w.text.toList ++ rest)) =
        (scanFrom (stack' l.place) [] spot' rest).map (l :: ·) := by
  obtain ⟨c, cs, hc, hb, hcut⟩ := hw.cut
  exact scanFrom_cut hg hc hb (hcut rest hr) hs spot

/-- The source of an outline is cut into the words of the outline. -/
def Scans (ps : List Piece) : Prop :=
  ∀ rest : List Char, (∀ d ∈ rest.head?, endMeets ps d = true) →
    ∀ (stack : List (String × Place)) (spot : Spot), ∃ ls spot',
      ls.map Lexeme.spoken = wordsOf ps ∧
      scanFrom stack [] spot (spellAll ps ++ rest) =
        (scanFrom stack [] spot' rest).map (ls ++ ·)

theorem except_map_map {α β γ : Type} (a : Attempt α) (f : α → β) (g : β → γ) :
    (a.map f).map g = a.map (g ∘ f) := by
  cases a <;> rfl

theorem scans_nil : Scans [] := fun rest _ stack spot =>
  ⟨[], spot, rfl, by cases h : scanFrom stack [] spot rest <;> simp [Except.map, h]⟩

theorem scans_cons {p : Piece} {ps : List Piece} (hp : Scans [p]) (hps : Scans ps)
    (hj : ∀ d ∈ (spellAll ps).head?, p.meets d = true) (hne : ps ≠ [] → spellAll ps ≠ []) :
    Scans (p :: ps) := by
  intro rest hr stack spot
  have hnext : ∀ d ∈ (spellAll ps ++ rest).head?, endMeets [p] d = true := by
    cases ps with
    | nil => simpa using hr
    | cons q qs =>
      obtain ⟨c, cs, hc⟩ := List.exists_cons_of_ne_nil (hne (List.cons_ne_nil _ _))
      intro d hd
      rw [hc, List.cons_append, List.head?_cons] at hd
      exact hj d (by rw [hc, List.head?_cons]; exact hd)
  have hrest : ∀ d ∈ rest.head?, endMeets ps d = true := by
    cases ps with
    | nil => simp
    | cons q qs => simpa using hr
  obtain ⟨ls, spot₁, hls, hscan⟩ := hp (spellAll ps ++ rest) hnext stack spot
  obtain ⟨ms, spot₂, hms, hscan'⟩ := hps rest hrest stack spot₁
  refine ⟨ls ++ ms, spot₂, ?_, ?_⟩
  · rw [List.map_append, hls, hms]
    simp [wordsOf]
  · rw [spellAll_cons, List.append_assoc]
    rw [spellAll_cons, spellAll_nil, List.append_nil] at hscan
    rw [hscan, hscan', except_map_map]
    congr 1
    funext rs
    simp

theorem nextOpen_of_not_isBracket {w : Word} (h : w.isBracket = false)
    (stack : List (String × Place)) (place : Place) :
    nextOpen stack w.kind w.text place = .ok stack := by
  unfold nextOpen
  split_ifs with hk hc
  · rfl
  · simp_all [Word.isBracket]
  · have ho : openerOf w.text = none := by simp_all [Word.isBracket]
    rw [ho]

theorem nextOpen_opener (b : Bracket) (stack : List (String × Place)) (place : Place) :
    nextOpen stack .punct b.opener place = .ok ((b.opener, place) :: stack) := by
  cases b <;> rfl

theorem nextOpen_closer (b : Bracket) (stack : List (String × Place)) (opened place : Place) :
    nextOpen ((b.opener, opened) :: stack) .punct b.closer place = .ok stack := by
  cases b <;> rfl

theorem scans_word {g : String} {w : Word} (hg : isGap g = true) (hw : w.Stands)
    (hb : w.isBracket = false) : Scans [.word g w] := by
  intro rest hr stack spot
  obtain ⟨l, spot', hl, hscan⟩ :=
    scanFrom_word hg hw rest hr (nextOpen_of_not_isBracket hb stack) spot
  refine ⟨[l], spot', by simp [hl, wordsOf, Piece.words], ?_⟩
  simpa [Piece.spell] using hscan

theorem scans_group {g g' : String} {b : Bracket} {inner : List Piece} (hg : isGap g = true)
    (hg' : isGap g' = true) (hi : Scans inner) : Scans [.group g b inner g'] := by
  intro rest hr stack spot
  obtain ⟨o, spot₁, ho, hopen⟩ := scanFrom_word hg (stands_opener b)
    (spellAll inner ++ (g'.toList ++ (b.closer.toList ++ rest))) (fun d _ => meets_opener b d)
    (nextOpen_opener b stack) spot
  obtain ⟨ls, spot₂, hls, hscan⟩ := hi (g'.toList ++ (b.closer.toList ++ rest))
    (fun d hd => endMeets_of_isSoft _ (isSoft_head_closing hg' rest d hd))
    ((b.opener, o.place) :: stack) spot₁
  obtain ⟨c, spot₃, hc, hclose⟩ := scanFrom_word hg' (stands_closer b) rest
    (fun d _ => meets_closer b d) (nextOpen_closer b stack o.place) spot₂
  refine ⟨o :: (ls ++ [c]), spot₃, by simp [ho, hls, hc, wordsOf, Piece.words], ?_⟩
  simp only [Word.mark] at hopen hclose
  simp only [spellAll_cons, spellAll_nil, Piece.spell, List.append_nil, List.append_assoc, hopen,
    hscan, hclose, except_map_map]
  congr 1
  funext rs
  simp

mutual

theorem Piece.Sound.scans : {p : Piece} → p.Sound → Scans [p]
  | .word _ _, h => scans_word h.1 h.2.1 h.2.2
  | .group _ _ _ _, h => scans_group h.1 h.2.1 (SoundAll.scans h.2.2)

theorem SoundAll.scans : {ps : List Piece} → SoundAll ps → Scans ps
  | [], _ => scans_nil
  | p :: ps, h => by
    refine scans_cons (Piece.Sound.scans h.1) (SoundAll.scans h.2.2) h.2.1 ?_
    cases ps with
    | nil => simp
    | cons q qs => simp [h.2.2.1.spell_ne]

end

/-! ## From words to trees -/

/-- Whether a gap in a source is that of an outline. A gap with a line feed may be any such. -/
def GapLike (gap g : String) : Prop := gap = g ∨ ('\n' ∈ g.toList ∧ isGap gap = true)

/-- A token that is a given word after a given gap. -/
structure Token.Is (t : Token) (g : String) (w : Word) : Prop where
  word : t.lexeme.word = w
  comments : t.comments = []
  gap : GapLike t.lexeme.blank g

mutual

/-- A tree that has the shape of a piece. -/
def TokenTree.Shows : TokenTree → Piece → Prop
  | .leaf t, .word g w => t.Is g w
  | .group o ts c, .group g b inner g' =>
    o.Is g (.mark b.opener) ∧ c.Is g' (.mark b.closer) ∧ ShowsAll ts inner
  | _, _ => False

/-- A forest that has the shape of an outline. -/
def ShowsAll : List TokenTree → List Piece → Prop
  | [], [] => True
  | t :: ts, p :: ps => t.Shows p ∧ ShowsAll ts ps
  | _, _ => False

end

theorem showsAll_nil {ts : List TokenTree} : ShowsAll ts [] ↔ ts = [] := by
  cases ts <;> simp [ShowsAll]

theorem showsAll_cons {ts : List TokenTree} {p : Piece} {ps : List Piece} :
    ShowsAll ts (p :: ps) ↔ ∃ t us, ts = t :: us ∧ t.Shows p ∧ ShowsAll us ps := by
  cases ts <;> simp [ShowsAll]

theorem shows_word {t : TokenTree} {g : String} {w : Word} :
    t.Shows (.word g w) ↔ ∃ u, t = .leaf u ∧ u.Is g w := by
  cases t <;> simp [TokenTree.Shows]

theorem shows_group {t : TokenTree} {g g' : String} {b : Bracket} {inner : List Piece} :
    t.Shows (.group g b inner g') ↔ ∃ o ts c, t = .group o ts c ∧ o.Is g (.mark b.opener) ∧
      c.Is g' (.mark b.closer) ∧ ShowsAll ts inner := by
  cases t <;> simp [TokenTree.Shows]

theorem showsAll_append {ts : List TokenTree} {ps qs : List Piece} :
    ShowsAll ts (ps ++ qs) ↔ ∃ us vs, ts = us ++ vs ∧ ShowsAll us ps ∧ ShowsAll vs qs := by
  induction ps generalizing ts with
  | nil => simp [showsAll_nil]
  | cons p ps ih =>
    simp only [List.cons_append, showsAll_cons, ih]
    constructor
    · rintro ⟨t, _, rfl, ht, us, vs, rfl, hu, hv⟩
      exact ⟨t :: us, vs, rfl, ⟨t, us, rfl, ht, hu⟩, hv⟩
    · rintro ⟨_, vs, rfl, ⟨t, us, rfl, ht, hu⟩, hv⟩
      exact ⟨t, us ++ vs, rfl, ht, us, vs, rfl, hu, hv⟩

/-- Tokens with the words of an outline become a forest of its shape on the level at hand. -/
def Builds (ps : List Piece) : Prop :=
  ∀ toks : List Token, toks.map (fun t => t.lexeme.spoken) = wordsOf ps →
    (∀ t ∈ toks, t.comments = []) → ∃ ts, ShowsAll ts ps ∧ TokenTree.tokensOf ts = toks ∧
      ∀ l : TokenTree.Levels,
        toks.foldl TokenTree.Levels.push l = { l with here := ts.reverse ++ l.here }

theorem is_of_spoken {t : Token} {g : String} {w : Word} (h : t.lexeme.spoken = (g, w))
    (hc : t.comments = []) : t.Is g w := by
  rw [Lexeme.spoken, Prod.mk.injEq] at h
  exact ⟨h.2, hc, Or.inl h.1⟩

theorem push_of_not_isBracket {t : Token} {g : String} {w : Word} (h : t.Is g w)
    (hw : w.isBracket = false) (l : TokenTree.Levels) :
    l.push t = { l with here := .leaf t :: l.here } := by
  obtain ⟨rfl, -, -⟩ := h
  simp only [Word.isBracket, Lexeme.word, Bool.and_eq_false_imp, Bool.or_eq_false_iff] at hw
  unfold TokenTree.Levels.push Token.text
  by_cases hk : t.lexeme.kind = .punct
  · have := hw (by simp [hk])
    simp [this.1, this.2]
  · simp [hk]

theorem push_opener {t : Token} {g : String} {b : Bracket} (h : t.Is g (.mark b.opener))
    (l : TokenTree.Levels) : l.push t = ⟨[], (t, l.here) :: l.open_⟩ := by
  have hk : t.lexeme.kind = .punct := congrArg Word.kind h.word
  have ht : t.lexeme.text = b.opener := congrArg Word.text h.word
  unfold TokenTree.Levels.push Token.text
  rw [hk, ht]
  cases b <;> rfl

theorem push_closer {t o : Token} {g : String} {b : Bracket} (h : t.Is g (.mark b.closer))
    (here outer : List TokenTree) (rest : List (Token × List TokenTree)) :
    TokenTree.Levels.push ⟨here, (o, outer) :: rest⟩ t =
      ⟨.group o here.reverse t :: outer, rest⟩ := by
  have hk : t.lexeme.kind = .punct := congrArg Word.kind h.word
  have ht : t.lexeme.text = b.closer := congrArg Word.text h.word
  unfold TokenTree.Levels.push Token.text
  rw [hk, ht]
  cases b <;> rfl

theorem builds_cons {p : Piece} {ps : List Piece} (hp : Builds [p]) (hps : Builds ps) :
    Builds (p :: ps) := by
  intro toks htoks hc
  rw [wordsOf_cons, List.map_eq_append_iff] at htoks
  obtain ⟨us, vs, rfl, hu, hv⟩ := htoks
  obtain ⟨ts, hts, htok, hpush⟩ := hp us (by simpa [wordsOf] using hu)
    fun t ht => hc t (List.mem_append_left _ ht)
  obtain ⟨ts', hts', htok', hpush'⟩ := hps vs hv fun t ht => hc t (List.mem_append_right _ ht)
  obtain ⟨t, _, rfl, ht, hnil⟩ := showsAll_cons.1 hts
  rw [showsAll_nil] at hnil
  subst hnil
  refine ⟨t :: ts', ⟨ht, hts'⟩, ?_, fun l => ?_⟩
  · simp only [TokenTree.tokensOf, List.append_nil] at htok ⊢
    rw [htok, htok']
  · rw [List.foldl_append, hpush, hpush']
    simp

theorem builds_word {g : String} {w : Word} (hb : w.isBracket = false) : Builds [.word g w] := by
  intro toks htoks hc
  simp only [wordsOf, Piece.words, List.append_nil, List.map_eq_singleton_iff] at htoks
  obtain ⟨t, rfl, ht⟩ := htoks
  have his := is_of_spoken ht (hc t List.mem_cons_self)
  exact ⟨[.leaf t], ⟨his, trivial⟩, rfl, fun l => push_of_not_isBracket his hb l⟩

theorem builds_group {g g' : String} {b : Bracket} {inner : List Piece} (hi : Builds inner) :
    Builds [.group g b inner g'] := by
  intro toks htoks hc
  simp only [wordsOf, Piece.words, List.append_nil, List.map_eq_cons_iff,
    List.map_eq_append_iff, List.map_eq_nil_iff] at htoks
  obtain ⟨o, _, rfl, ho, us, _, rfl, hu, c, _, rfl, hcl, rfl⟩ := htoks
  have ho := is_of_spoken ho (hc o (by simp))
  have hcl := is_of_spoken hcl (hc c (by simp))
  obtain ⟨ts, hts, htok, hpush⟩ := hi us hu fun t ht => hc t (by simp [ht])
  refine ⟨[.group o ts c], ⟨⟨ho, hcl, hts⟩, trivial⟩, ?_, fun l => ?_⟩
  · simp [TokenTree.tokensOf, TokenTree.tokens, htok]
  · rw [List.foldl_cons, List.foldl_append, push_opener ho, hpush, List.foldl_cons, List.foldl_nil,
      push_closer hcl]
    simp

mutual

theorem Piece.Sound.builds : {p : Piece} → p.Sound → Builds [p]
  | .word _ _, h => builds_word h.2.2
  | .group _ _ _ _, h => builds_group (SoundAll.builds h.2.2)

theorem SoundAll.builds : {ps : List Piece} → SoundAll ps → Builds ps
  | [], _ => fun toks htoks _ => 
    ⟨[], trivial, by simp_all [wordsOf, TokenTree.tokensOf], by simp_all [wordsOf]⟩
  | _ :: _, h => builds_cons (Piece.Sound.builds h.1) (SoundAll.builds h.2.2)

end

/-! ## Whole sources -/

/-- The tokens of lexemes among which there is no comment. -/
def tokensFrom (index : Nat) : List Lexeme → List Token
  | [] => []
  | l :: ls => ⟨l, index, []⟩ :: tokensFrom (index + 1) ls

theorem attach_of_no_comment {ls : List Lexeme} (h : ∀ l ∈ ls, l.kind ≠ .comment) (index : Nat) :
    TokenTree.attach index [] ls = (tokensFrom index ls, []) := by
  induction ls generalizing index with
  | nil => rfl
  | cons l ls ih =>
    have hl : (l.kind == .comment) = false := by simpa using h l List.mem_cons_self
    rw [TokenTree.attach, hl, ih fun m hm => h m (List.mem_cons_of_mem _ hm)]
    rfl

theorem map_lexeme_tokensFrom (index : Nat) (ls : List Lexeme) :
    (tokensFrom index ls).map Token.lexeme = ls := by
  induction ls generalizing index with
  | nil => rfl
  | cons l ls ih => simp [tokensFrom, ih]

theorem comments_of_mem_tokensFrom {index : Nat} {ls : List Lexeme} {t : Token}
    (h : t ∈ tokensFrom index ls) : t.comments = [] := by
  induction ls generalizing index with
  | nil => cases h
  | cons l ls ih =>
    rcases List.mem_cons.1 h with rfl | h
    · rfl
    · exact ih h

theorem le_index_of_mem_tokensFrom {index : Nat} {ls : List Lexeme} {t : Token}
    (h : t ∈ tokensFrom index ls) : index ≤ t.index := by
  induction ls generalizing index with
  | nil => cases h
  | cons l ls ih =>
    rcases List.mem_cons.1 h with rfl | h
    · exact Nat.le_refl _
    · exact Nat.le_of_succ_le (ih h)

theorem pairwise_tokensFrom (index : Nat) (ls : List Lexeme) :
    (tokensFrom index ls).Pairwise fun t u => t.index < u.index := by
  induction ls generalizing index with
  | nil => exact List.Pairwise.nil
  | cons l ls ih => exact List.Pairwise.cons (fun t ht => le_index_of_mem_tokensFrom ht) (ih _)

mutual

theorem Piece.Sound.kind_ne : {p : Piece} → p.Sound → ∀ w ∈ p.words, w.2.kind ≠ .comment
  | .word _ _, h => by
    simp only [Piece.words, List.mem_singleton, forall_eq]
    exact h.2.1.kind_ne
  | .group _ b _ _, h => by
    simp only [Piece.words, List.mem_cons, List.mem_append, List.not_mem_nil, or_false]
    rintro w (rfl | hw | rfl)
    · simp [Word.mark]
    · exact SoundAll.kind_ne h.2.2 w hw
    · simp [Word.mark]

theorem SoundAll.kind_ne : {ps : List Piece} → SoundAll ps → ∀ w ∈ wordsOf ps, w.2.kind ≠ .comment
  | [], _ => by simp [wordsOf]
  | _ :: _, h => by
    simp only [wordsOf_cons, List.mem_append]
    rintro w (hw | hw)
    · exact Piece.Sound.kind_ne h.1 w hw
    · exact SoundAll.kind_ne h.2.2 w hw

end

/-- A forest whose tokens are numbered in the order of the source. -/
def InOrder (ts : List TokenTree) : Prop :=
  (TokenTree.tokensOf ts).Pairwise fun t u => t.index < u.index

/-- The source of a sound outline is read as a forest of its shape. -/
theorem read_spellAll {ps : List Piece} (h : SoundAll ps) (gap : String) (hg : isGap gap = true) :
    ∃ s, Source.read (String.ofList (spellAll ps ++ gap.toList)) = .ok s ∧ ShowsAll s.trees ps ∧
      InOrder s.trees ∧ s.tail = [] := by
  obtain ⟨ls, spot, hls, hscan⟩ := h.scans gap.toList
    (fun d hd => endMeets_of_isSoft _ (isSoft_of_isGap hg (List.mem_of_mem_head? hd))) [] {}
  have hrest : scanFrom [] [] spot gap.toList = .ok [] := by
    have := scanFrom_gap (fun d hd => isBlank_of_isGap hg hd) [] [] spot []
    rw [List.append_nil] at this
    rw [this, scanFrom_nil]
  rw [hrest] at hscan
  have hkind : ∀ l ∈ ls, l.kind ≠ .comment := by
    intro l hl
    have : l.spoken ∈ wordsOf ps := hls ▸ List.mem_map_of_mem hl
    exact h.kind_ne _ this
  have hread : Source.read (String.ofList (spellAll ps ++ gap.toList)) =
      .ok ⟨tokensFrom 0 ls, TokenTree.ofTokens (tokensFrom 0 ls), []⟩ := by
    simp only [Source.read, Lexeme.scan, String.toList_ofList, hscan, Except.map, List.append_nil,
      bind, Except.bind, attach_of_no_comment hkind, pure, Except.pure]
  obtain ⟨ts, hts, htok, hpush⟩ := h.builds (tokensFrom 0 ls)
    (by rw [← hls, ← map_lexeme_tokensFrom 0 ls, List.map_map, map_lexeme_tokensFrom]; rfl)
    fun t ht => comments_of_mem_tokensFrom ht
  have htrees : TokenTree.ofTokens (tokensFrom 0 ls) = ts := by
    rw [TokenTree.ofTokens, hpush]
    simp [TokenTree.Levels.close]
  refine ⟨_, hread, ?_, ?_, rfl⟩
  · rw [htrees]
    exact hts
  · simp only [InOrder, htrees, htok]
    exact pairwise_tokensFrom 0 ls

/-- The words of a sound outline are told by its source. -/
theorem wordsOf_eq_of_spellAll_eq {ps qs : List Piece} (hp : SoundAll ps) (hq : SoundAll qs)
    (h : spellAll ps = spellAll qs) : wordsOf ps = wordsOf qs := by
  have hscan : ∀ {rs : List Piece}, SoundAll rs →
      ∃ ls, ls.map Lexeme.spoken = wordsOf rs ∧ scanFrom [] [] {} (spellAll rs) = .ok ls := by
    intro rs hrs
    obtain ⟨ls, spot, hls, hrun⟩ := hrs.scans [] (by simp) [] {}
    refine ⟨ls, hls, ?_⟩
    simpa [scanFrom_nil, Except.map] using hrun
  obtain ⟨ls, hls, hrun⟩ := hscan hp
  obtain ⟨ls', hls', hrun'⟩ := hscan hq
  rw [h, hrun', Except.ok.injEq] at hrun
  rw [← hls, ← hls', hrun]

end WidgetBridge.WidgetGrammar
