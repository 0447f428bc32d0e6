import WidgetBridge.Proofs.WidgetGrammar.SourceText

/-!
# Fixed source

Much of what is written is fixed.  The outline of a fixed text is found by reading it (`outlineOf`),
and whether it is one is tested (`isTemplate`), so that nothing has to be said about its words.
-/

namespace WidgetBridge.WidgetGrammar

open WidgetBridge.Text

/-! ## The outline of a text -/

/-- The brackets that a text opens. -/
def bracketOf (s : String) : Bracket :=
  if s == "(" then .round else if s == "[" then .square else .curly

mutual

/-- The outline of a tree. -/
def TokenTree.piece : TokenTree → Piece
  | .leaf t => .word t.gap t.lexeme.word
  | .group o ts c => .group o.gap (bracketOf o.text) (piecesOf ts) c.gap

/-- The outline of a forest. -/
def piecesOf : List TokenTree → List Piece
  | [] => []
  | t :: ts => t.piece :: piecesOf ts

end

/-- The outline of a text. -/
def outlineOf (cs : List Char) : List Piece :=
  match scanFrom [] [] {} cs with
  | .ok ls => piecesOf (TokenTree.ofTokens (TokenTree.attach 0 [] ls).1)
  | .error _ => []

/-! ## Outlines of plain words -/

mutual

/-- Whether a piece is made of plain words. -/
def Piece.isPlain : Piece → Bool
  | .word g w => isGap g && w.isPlain && !w.isBracket
  | .group g _ inner g' => isGap g && isGap g' && plainAll inner

/-- Whether an outline is made of plain words, none of which runs into the next. -/
def plainAll : List Piece → Bool
  | [] => true
  | p :: ps => p.isPlain && (spellAll ps).head?.all p.meets && plainAll ps

end

mutual

theorem Piece.sound_of_isPlain : {p : Piece} → p.isPlain = true → p.Sound
  | .word g w, h => by
    simp only [Piece.isPlain, Bool.and_eq_true, Bool.not_eq_true'] at h
    exact ⟨h.1.1, stands_of_isPlain h.1.2, h.2⟩
  | .group g b inner g', h => by
    simp only [Piece.isPlain, Bool.and_eq_true] at h
    exact ⟨h.1.1, h.1.2, soundAll_of_plainAll h.2⟩

theorem soundAll_of_plainAll : {ps : List Piece} → plainAll ps = true → SoundAll ps
  | [], _ => trivial
  | p :: ps, h => by
    simp only [plainAll, Bool.and_eq_true] at h
    refine ⟨Piece.sound_of_isPlain h.1.1, fun d hd => ?_, soundAll_of_plainAll h.2⟩
    rw [Option.mem_def] at hd
    simpa [hd] using h.1.2

end

/-- A text that has a sound outline. -/
def Outlined (a : String) : Prop := ∃ ps, a.toList = spellAll ps ∧ SoundAll ps

theorem Phrase.outlined {a : String} {Q : Range → Prop} (h : Phrase a Q) : Outlined a :=
  h.elim fun ps hs => ⟨ps, hs.1.toList_eq, hs.1.sound⟩

/-- Whether a text is made of plain words and its outline passes a test. -/
def isTemplate (test : List Piece → Bool) (cs : List Char) : Bool :=
  plainAll (outlineOf cs) && spellAll (outlineOf cs) == cs && test (outlineOf cs)

theorem exists_outline {test : List Piece → Bool} {cs : List Char} (h : isTemplate test cs = true) :
    ∃ ps, (String.ofList cs).toList = spellAll ps ∧ SoundAll ps ∧ test ps = true := by
  simp only [isTemplate, Bool.and_eq_true, beq_iff_eq] at h
  exact ⟨outlineOf cs, by rw [String.toList_ofList, h.1.2], soundAll_of_plainAll h.1.1, h.2⟩

theorem outlined_ofList {cs : List Char} (h : isTemplate (fun _ => true) cs = true) :
    Outlined (String.ofList cs) :=
  (exists_outline h).elim fun ps hps => ⟨ps, hps.1, hps.2.1⟩

end WidgetBridge.WidgetGrammar
