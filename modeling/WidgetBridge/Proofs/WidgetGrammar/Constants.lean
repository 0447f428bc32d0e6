import WidgetBridge.Proofs.Assoc
import WidgetBridge.Proofs.WidgetGrammar.Expressions

/-!
# Constants read back

Data without doubles is written as source on one line, and the source is read as the same data
(`toProp_ofValue`).  The proof follows the structure of the data: texts are quoted so that they end
where they should, and the brackets and commas of lists and maps keep their members apart.
-/

namespace WidgetBridge.WidgetGrammar

open WidgetBridge.Text WidgetBridge.Number

mutual

/-- Data that source states exactly: it has no doubles, and no map has a key twice. -/
def Exact : Value → Prop
  | .float _ => False
  | .list items => ExactItems items
  | .map entries => (Assoc.keys entries).Nodup ∧ ExactEntries entries
  | _ => True

/-- Exact members of a list. -/
def ExactItems : List Value → Prop
  | [] => True
  | v :: vs => Exact v ∧ ExactItems vs

/-- Exact entries of a map. -/
def ExactEntries : List (String × Value) → Prop
  | [] => True
  | (_, v) :: es => Exact v ∧ ExactEntries es

end

/-! ## Texts -/

/-- Plain text is one part, or none if it is empty. -/
theorem fused_text_eq (s : String) : fused [.text s] = if s.isEmpty then [] else [.text s] := by
  by_cases hs : s = ""
  · subst hs
    rfl
  · rw [fused_text hs, if_neg (by simpa using hs)]

theorem mergeParts_fused_text (s : String) : mergeParts (fused [.text s]) = fused [.text s] := by
  rw [fused_text_eq]
  split_ifs <;> rfl

theorem hasHole_fused_text (s : String) : hasHole (fused [.text s]) = false := by
  rw [fused_text_eq]
  split_ifs <;> rfl

theorem plainText_fused_text (s : String) : plainText (fused [.text s]) = s := by
  rw [fused_text_eq]
  split_ifs with h
  · exact (by simpa using h : s = "").symm
  · simp [plainText]

theorem single_text (s : String) : (Word.literal [.text s]).Single :=
  single_literal (by simp [Part.Writable]) (by simp)

theorem ofList_quoted_text (s : String) : String.ofList (quoted [.text s]) = string s := by
  rw [← toList_string, String.ofList_toList]

theorem Word.text_literal_text (s : String) : (Word.literal [.text s]).text = string s :=
  ofList_quoted_text s

theorem constant?_text (r : Range) (s : String) :
    constant? (.string r (mergeParts (fused [.text s]))) = some (.str s) := by
  simp [constant?, mergeParts_fused_text, hasHole_fused_text, plainText_fused_text]

/-! ## Lists and maps -/

/-- An expression that writes a value. -/
def Writes (v : Value) (e : Expr) : Prop := constant? e = some v

theorem constants?_of_meet {vs : List Value} {es : List Expr} (h : Meet (vs.map Writes) es) :
    constants? es = some vs := by
  induction vs generalizing es with
  | nil =>
    cases h
    rfl
  | cons v vs ih =>
    obtain ⟨e, es, he, hes, rfl⟩ := List.forall₂_cons_left_iff.1 h
    have he : constant? e = some v := he
    simp [constants?, he, ih hes]

/-- What is known of the key and the value of an entry. -/
def entrySpec (entry : String × Value) : (Expr → Prop) × (Expr → Prop) :=
  (fun e => ∃ r, e = .string r (mergeParts (fused [.text entry.1])), Writes entry.2)

theorem constantEntries?_of_meet {entries : List (String × Value)} {es : List (Expr × Expr)}
    (h : EntriesMeet (entries.map entrySpec) es) : constantEntries? es = some entries := by
  induction entries generalizing es with
  | nil =>
    cases h
    rfl
  | cons entry entries ih =>
    obtain ⟨⟨key, value⟩, es, ⟨⟨r, hkey⟩, hvalue⟩, hes, rfl⟩ := List.forall₂_cons_left_iff.1 h
    have hkey : key = .string r (mergeParts (fused [.text entry.1])) := hkey
    have hvalue : constant? value = some entry.2 := hvalue
    simp [constantEntries?, hkey, constant?_text, hvalue, ih hes]

/-! ## All data -/

mutual

theorem reads_ofValue : (v : Value) → Exact v → Reads (ofValue v) (Writes v)
  | .null, _ => reads_null.imp fun _ ⟨_, he⟩ => he ▸ rfl
  | .bool true, _ => reads_true.imp fun _ ⟨_, he⟩ => he ▸ rfl
  | .bool false, _ => reads_false.imp fun _ ⟨_, he⟩ => he ▸ rfl
  | .int i, _ => (reads_int i).imp fun _ ⟨_, he⟩ => he ▸ rfl
  | .float _, h => h.elim
  | .str s, _ => by
    have h := (single_text s).phrase fun t ht follow => readsAs_literal ht follow
    rw [Word.text_literal_text] at h
    exact Reads.imp h fun _ ⟨r, he⟩ => he ▸ constant?_text r s
  | .list items, h => by
    have hinner := listing_inline (reads_ofItems items h)
    have hlist := reads_list hinner "" (by decide)
    rw [String.append_empty] at hlist
    refine hlist.imp ?_
    rintro _ ⟨r, es, rfl, hmeet, -⟩
    simp [Writes, constant?, constants?_of_meet hmeet]
  | .map entries, h => by
    have hinner := listing_inline (reads_ofEntries entries h.2)
    have hmap := reads_map hinner "" (by decide)
    rw [String.append_empty] at hmap
    refine hmap.imp ?_
    rintro _ ⟨r, es, rfl, hmeet⟩
    simp [Writes, constant?, constantEntries?_of_meet hmeet, Assoc.ofPairs_of_nodup h.1]

theorem reads_ofItems : (vs : List Value) → ExactItems vs →
    List.Forall₂ Phrase (ofItems vs) ((vs.map Writes).map ReadsAs)
  | [], _ => List.Forall₂.nil
  | v :: vs, h => List.Forall₂.cons (reads_ofValue v h.1) (reads_ofItems vs h.2)

theorem reads_ofEntries : (es : List (String × Value)) → ExactEntries es →
    List.Forall₂ Phrase (ofEntries es) ((es.map entrySpec).map ReadsEntry)
  | [], _ => List.Forall₂.nil
  | (k, v) :: es, h => by
    refine List.Forall₂.cons ?_ (reads_ofEntries es h.2)
    rw [← ofList_quoted_text]
    exact readsEntry_literal (reads_ofValue v h.1) (single_text k)

end

/-! ## One line -/

theorem newline_not_mem_string (s : String) : '\n' ∉ (string s).toList := by
  have h : '\n' ∉ bodyOf [.text s] := newline_not_mem_bodyOf (by simp)
  rw [toList_string]
  simpa [quoted] using h

mutual

theorem newline_not_mem_ofValue : (v : Value) → Exact v → '\n' ∉ (ofValue v).toList
  | .null, _ => by decide
  | .bool true, _ => by decide
  | .bool false, _ => by decide
  | .int i, _ => newline_not_mem_showInt i
  | .float _, h => h.elim
  | .str s, _ => newline_not_mem_string s
  | .list items, h => by
    have hinner : '\n' ∉ (join ", " (ofItems items)).toList := by
      intro hm
      rcases mem_or_mem_of_mem_join hm with hm | ⟨s, hs, hm⟩
      · exact absurd hm (by decide)
      · exact newline_not_mem_ofItems items h s hs hm
    simp [ofValue, hinner]
  | .map entries, h => by
    have hinner : '\n' ∉ (join ", " (ofEntries entries)).toList := by
      intro hm
      rcases mem_or_mem_of_mem_join hm with hm | ⟨s, hs, hm⟩
      · exact absurd hm (by decide)
      · exact newline_not_mem_ofEntries entries h.2 s hs hm
    simp [ofValue, hinner]

theorem newline_not_mem_ofItems : (vs : List Value) → ExactItems vs →
    ∀ s ∈ ofItems vs, '\n' ∉ s.toList
  | [], _ => by simp [ofItems]
  | v :: vs, h => by
    rw [ofItems, List.forall_mem_cons]
    exact ⟨newline_not_mem_ofValue v h.1, newline_not_mem_ofItems vs h.2⟩

theorem newline_not_mem_ofEntries : (es : List (String × Value)) → ExactEntries es →
    ∀ s ∈ ofEntries es, '\n' ∉ s.toList
  | [], _ => by simp [ofEntries]
  | (k, v) :: es, h => by
    rw [ofEntries, List.forall_mem_cons]
    refine ⟨?_, newline_not_mem_ofEntries es h.2⟩
    simp [newline_not_mem_string k, newline_not_mem_ofValue v h.1]

end

/-! ## The words of data -/

/-- Whether a word can stand in the source of data: of the names only the constants, and no
semicolon. -/
def Word.isDatum (w : Word) : Bool :=
  match w.kind with
  | .ident => ["true", "false", "null"].contains w.text
  | .punct => w.text != ";"
  | _ => true

/-- A text whose words are words of data. -/
def IsData (a : String) : Prop := ∃ ps, Spelt a ps ∧ ∀ w ∈ wordsOf ps, w.2.isDatum = true

theorem isData_word {w : Word} (hw : Spelt w.text [.word "" w]) (hd : w.isDatum = true) :
    IsData w.text :=
  ⟨_, hw, by simpa [wordsOf, Piece.words] using hd⟩

theorem wordsOf_append (ps qs : List Piece) : wordsOf (ps ++ qs) = wordsOf ps ++ wordsOf qs := by
  induction ps with
  | nil => rfl
  | cons p ps ih => simp [ih]

theorem IsData.lead {a : String} (h : IsData a) {g : String} (hg : isGap g = true) :
    IsData (g ++ a) := by
  obtain ⟨ps, hs, hd⟩ := h
  refine ⟨_, hs.lead hg, ?_⟩
  cases ps with
  | nil => exact hd
  | cons p ps =>
    cases p with
    | word g₀ w => simpa [leadWith, Piece.words] using hd
    | group g₀ b inner g' => simpa [leadWith, Piece.words] using hd

theorem IsData.append {a b : String} (ha : IsData a) (hb : IsData b)
    (hsoft : ∀ d ∈ b.toList.head?, isSoft d = true) : IsData (a ++ b) := by
  obtain ⟨ps, hps, hp⟩ := ha
  obtain ⟨qs, hqs, hq⟩ := hb
  refine ⟨_, hps.append hqs fun d hd => endMeets_of_isSoft ps (hsoft d hd), fun w hw => ?_⟩
  rw [wordsOf_append, List.mem_append] at hw
  exact hw.elim (hp w) (hq w)

/-- A separator and a space between data. -/
theorem isData_separated {w : Word} (hw : Spelt w.text [.word "" w]) (hd : w.isDatum = true)
    (hsoft : ∀ d ∈ w.text.toList.head?, isSoft d = true) {a b : String} (ha : IsData a)
    (hb : IsData b) : IsData (a ++ (w.text ++ " ") ++ b) := by
  have hrest := (isData_word hw hd).append (hb.lead (g := " ") rfl) (by
    intro d hd
    have hd : ' ' = d := by simpa using hd
    rw [← hd]
    rfl)
  have hall := ha.append hrest (by
    obtain ⟨c, cs, hcs⟩ := List.exists_cons_of_ne_nil hw.sound.1.2.1.text_ne
    simpa [String.toList_append, hcs] using hsoft)
  simpa only [String.append_assoc] using hall

theorem isData_join {as : List String} (h : ∀ a ∈ as, IsData a) (hne : as ≠ []) :
    IsData (join ", " as) := by
  induction as with
  | nil => exact absurd rfl hne
  | cons a as ih =>
    rw [List.forall_mem_cons] at h
    cases as with
    | nil => exact h.1
    | cons b bs =>
      rw [join_cons_cons]
      exact isData_separated (w := comma) spelt_comma rfl (by rintro d ⟨⟩; rfl) h.1
        (ih h.2 (List.cons_ne_nil _ _))

theorem isData_bracketed {as : List String} (h : ∀ a ∈ as, IsData a) (b : Bracket) :
    IsData (b.opener ++ join ", " as ++ b.closer) := by
  have hinner : ∃ ps, (join ", " as).toList = spellAll ps ∧ SoundAll ps ∧
      ∀ w ∈ wordsOf ps, w.2.isDatum = true := by
    by_cases hne : as = []
    · subst hne
      exact ⟨[], rfl, trivial, by simp [wordsOf]⟩
    · obtain ⟨ps, hs, hd⟩ := isData_join h hne
      exact ⟨ps, hs.toList_eq, hs.sound, hd⟩
  obtain ⟨ps, htext, hsound, hd⟩ := hinner
  have hspelt := spelt_group b htext hsound (rfl : isGap "" = true) (rfl : isGap "" = true)
  refine ⟨[.group "" b ps ""], by simpa using hspelt, fun w hw => ?_⟩
  have hmarks : (Word.mark b.opener).isDatum = true ∧ (Word.mark b.closer).isDatum = true := by
    cases b <;> decide
  simp only [wordsOf, Piece.words, List.append_nil, List.mem_cons, List.mem_append,
    List.not_mem_nil, or_false] at hw
  rcases hw with rfl | hw | rfl
  · exact hmarks.1
  · exact hd w hw
  · exact hmarks.2

mutual

theorem isData_ofValue : (v : Value) → Exact v → IsData (ofValue v)
  | .null, _ => isData_word (single_name (s := "null") (by decide)).spelt (by decide)
  | .bool true, _ => isData_word (single_name (s := "true") (by decide)).spelt (by decide)
  | .bool false, _ => isData_word (single_name (s := "false") (by decide)).spelt (by decide)
  | .int (.ofNat n), _ => isData_word (single_digits n).spelt rfl
  | .int (.negSucc n), _ => by
    refine ⟨_, spelt_negative (n + 1), ?_⟩
    simp [wordsOf, Piece.words, Word.isDatum, Word.mark, Word.numeral]
  | .float _, h => h.elim
  | .str s, _ => by
    have h := isData_word (single_text s).spelt rfl
    rwa [Word.text_literal_text] at h
  | .list items, h => isData_bracketed (isData_ofItems items h) .square
  | .map entries, h => isData_bracketed (isData_ofEntries entries h.2) .curly

theorem isData_ofItems : (vs : List Value) → ExactItems vs → ∀ a ∈ ofItems vs, IsData a
  | [], _ => by simp [ofItems]
  | v :: vs, h => List.forall_mem_cons.2 ⟨isData_ofValue v h.1, isData_ofItems vs h.2⟩

theorem isData_ofEntries : (es : List (String × Value)) → ExactEntries es →
    ∀ a ∈ ofEntries es, IsData a
  | [], _ => by simp [ofEntries]
  | (k, v) :: es, h => by
    refine List.forall_mem_cons.2 ⟨?_, isData_ofEntries es h.2⟩
    have hkey := isData_word (single_text k).spelt rfl
    rw [Word.text_literal_text] at hkey
    have hcolon : colon.Single := ⟨stands_of_isPlain (by decide), rfl, rfl⟩
    exact isData_separated hcolon.spelt rfl (by rintro d ⟨⟩; rfl) hkey (isData_ofValue v h.1)

end

/-- Every token of data is a word of data, however the data is read. -/
theorem Spelt.isDatum {v : Value} (h : Exact v) {ps : List Piece} (hs : Spelt (ofValue v) ps) :
    ∀ w ∈ wordsOf ps, w.2.isDatum = true := by
  obtain ⟨qs, hq, hd⟩ := isData_ofValue v h
  rwa [wordsOf_eq_of_spellAll_eq hs.sound hq.sound (hs.toList_eq.symm.trans hq.toList_eq)]

/-! ## The round trip -/

/-- The source of a text is a single literal, with the text and nothing else for its content. -/
theorem read_string (t : String) : ∃ s u, Source.read (string t) = .ok s ∧ s.trees = [.leaf u] ∧
    u.lexeme.kind = .string ∧ hasHole u.lexeme.parts = false ∧ plainText u.lexeme.parts = t := by
  have hs := (single_text t).spelt
  obtain ⟨s, hread, hshow, -, -⟩ := read_spellAll hs.sound "" (by decide)
  obtain ⟨u, us, htrees, hu, hnil⟩ := matches_word_cons.1 hshow.matches
  rw [showsAll_nil] at hnil
  subst hnil
  have htext : String.ofList (spellAll [.word "" (.literal [.text t])] ++ "".toList) =
      string t := by
    rw [← hs.toList_eq, ← ofList_quoted_text]
    simp [Word.literal]
  rw [htext] at hread
  refine ⟨s, u, hread, htrees, hu.kind_eq, ?_, ?_⟩
  · rw [hu.parts_eq]
    exact hasHole_fused_text t
  · rw [hu.parts_eq]
    exact plainText_fused_text t

/-- Data without doubles is written on one line and read back as it is; a text is read as one
literal that holds the text and no interpolation. -/
theorem toProp_ofValue (v : Value) (h : Exact v) :
    '\n' ∉ (ofValue v).toList ∧
    ∃ s e, Source.read (ofValue v) = .ok s ∧ s.all.expr = .ok e ∧ e.toProp = .literal v ∧
      ∀ t, v = .str t → ∃ u, s.trees = [.leaf u] ∧ u.lexeme.kind = .string ∧
        hasHole u.lexeme.parts = false ∧ plainText u.lexeme.parts = t := by
  obtain ⟨s, e, hread, hexpr, hwrites⟩ := (reads_ofValue v h).source
  have hwrites : constant? e = some v := hwrites
  refine ⟨newline_not_mem_ofValue v h, s, e, hread, hexpr, ?_, ?_⟩
  · rw [Expr.toProp, hwrites]
  · rintro t rfl
    obtain ⟨s', u, hread', htrees⟩ := read_string t
    obtain rfl : s = s' := Except.ok.inj (hread.symm.trans hread')
    exact ⟨u, htrees⟩

/-- The round trip of nested data whose texts hold quotes, interpolations and line feeds. -/
theorem toProp_ofValue_nested :
    let v : Value := .map [("it's", .list [.int (-12), .str "$\x7ba\x7d\n'", .bool true]),
      ("", .map [("\\", .null)])]
    Exact v ∧ '\n' ∉ (ofValue v).toList ∧
      ∃ s e, Source.read (ofValue v) = .ok s ∧ s.all.expr = .ok e ∧ e.toProp = .literal v := by
  have hexact : Exact (.map [("it's", .list [.int (-12), .str "$\x7ba\x7d\n'", .bool true]),
      ("", .map [("\\", .null)])]) := by
    simp [Exact, ExactItems, ExactEntries]
  obtain ⟨hline, s, e, hread, hexpr, hprop, -⟩ := toProp_ofValue _ hexact
  exact ⟨hexact, hline, s, e, hread, hexpr, hprop⟩

end WidgetBridge.WidgetGrammar
