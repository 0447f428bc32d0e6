import WidgetBridge.Proofs.Text.Layout
import WidgetBridge.Proofs.WidgetGrammar.Likeness

/-!
# Passages

An outline tells every word of a text.  Where a text holds source of which only its reading is
known, there is no outline; `Passage a P` says instead that the text `a` becomes a forest with the
property `P` wherever it stands: after any gap, with any indentation, and in front of everything
that starts with a soft character.

Texts with an outline are passages (`Spelt.passage`), and so is source that can be read by itself,
if it lies on one line (`passage_of_read`).  Passages are put next to each other, into brackets and
behind gaps, and they stay passages when their later lines are indented (`Passage.indentTail`).
-/

namespace WidgetBridge.WidgetGrammar

open WidgetBridge.Text

/-! ## Characters that become a forest -/

theorem Forms.imp {ls : List Lexeme} {P P' : List TokenTree → Prop} (h : Forms ls P)
    (hP : ∀ ts, P ts → P' ts) : Forms ls P' := fun index =>
  let ⟨next, ts, hattach, hnested, hts⟩ := h index
  ⟨next, ts, hattach, hnested, hP ts hts⟩

theorem nestedAll_append {ts us : List TokenTree} (ht : NestedAll ts) (hu : NestedAll us) :
    NestedAll (ts ++ us) := by
  rw [nestedAll_iff] at ht hu ⊢
  exact List.forall_mem_append.2 ⟨ht, hu⟩

/-- A forest made of two. -/
def Both (P Q : List TokenTree → Prop) (ts : List TokenTree) : Prop :=
  ∃ us vs, ts = us ++ vs ∧ P us ∧ Q vs

theorem Forms.append {ls ms : List Lexeme} {P Q : List TokenTree → Prop} (hl : Forms ls P)
    (hm : Forms ms Q) : Forms (ls ++ ms) (Both P Q) := by
  intro index
  obtain ⟨middle, us, hus, hnest, hP⟩ := hl index
  obtain ⟨next, vs, hvs, hnest', hQ⟩ := hm middle
  refine ⟨next, us ++ vs, fun rest => ?_, nestedAll_append hnest hnest', us, vs, rfl, hP, hQ⟩
  rw [List.append_assoc, hus, hvs, tokensOf_append, List.append_assoc]

/-- Characters that are cut into lexemes which become a forest with a property. -/
def Cuts (cs : List Char) (P : List TokenTree → Prop) : Prop :=
  ∀ rest, SoftStart rest → ∀ (stack : List (String × Place)) (spot : Spot), ∃ ls spot',
    scanFrom stack [] spot (cs ++ rest) = (scanFrom stack [] spot' rest).map (ls ++ ·) ∧ Forms ls P

theorem Cuts.imp {cs : List Char} {P P' : List TokenTree → Prop} (h : Cuts cs P)
    (hP : ∀ ts, P ts → P' ts) : Cuts cs P' := fun rest hr stack spot =>
  let ⟨ls, spot', hscan, hforms⟩ := h rest hr stack spot
  ⟨ls, spot', hscan, hforms.imp hP⟩

theorem SoftStart.append {cs rest : List Char} (hc : SoftStart cs) (hr : SoftStart rest) :
    SoftStart (cs ++ rest) := by
  cases cs with
  | nil => exact hr
  | cons c cs => exact hc

theorem Cuts.append {cs ds : List Char} {P Q : List TokenTree → Prop} (hc : Cuts cs P)
    (hd : Cuts ds Q) (hsoft : SoftStart ds) : Cuts (cs ++ ds) (Both P Q) := by
  intro rest hr stack spot
  obtain ⟨ls, spot₁, hls, hP⟩ := hc (ds ++ rest) (hsoft.append hr) stack spot
  obtain ⟨ms, spot₂, hms, hQ⟩ := hd rest hr stack spot₁
  refine ⟨ls ++ ms, spot₂, ?_, hP.append hQ⟩
  rw [List.append_assoc, hls, hms, except_map_map]
  congr 1
  funext ks
  simp

theorem TokenTree.nested_of_isWord {t : Token} {w : Word} (h : t.IsWord w)
    (hb : w.isBracket = false) :
    (TokenTree.leaf t).Nested := by
  obtain ⟨g, rfl, -, -⟩ := h
  simp only [Word.isBracket, Lexeme.word] at hb
  refine ⟨?_, ?_⟩ <;> simp_all [Lexeme.opens, Lexeme.closes]

mutual

theorem TokenTree.Shows.nested : {t : TokenTree} → {p : Piece} → p.Sound → t.Shows p → t.Nested
  | .leaf _, .word _ _, hs, h => TokenTree.nested_of_isWord h.isWord hs.2.2
  | .group o ts c, .group g b inner g', hs, h => by
    obtain ⟨ho, hc, hts⟩ := h
    refine ⟨?_, ?_, ShowsAll.nested hs.2.2 hts⟩
    · have hk : o.lexeme.kind = .punct := congrArg Word.kind ho.word
      have ht : o.lexeme.text = b.opener := congrArg Word.text ho.word
      rw [Lexeme.opens, hk, ht]
      cases b <;> rfl
    · have hk : c.lexeme.kind = .punct := congrArg Word.kind hc.word
      have ht : c.lexeme.text = b.closer := congrArg Word.text hc.word
      rw [Lexeme.closes, hk, ht]
      cases b <;> rfl

theorem ShowsAll.nested : {ts : List TokenTree} → {ps : List Piece} → SoundAll ps → ShowsAll ts ps →
    NestedAll ts
  | [], [], _, _ => trivial
  | _ :: _, _ :: _, hs, h => ⟨TokenTree.Shows.nested hs.1 h.1, ShowsAll.nested hs.2.2 h.2⟩

end

theorem cuts_of_scans {ps : List Piece} (hscans : Scans ps) (hbuilds : Builds ps)
    (hkind : ∀ w ∈ wordsOf ps, w.2.kind ≠ .comment)
    (hnested : ∀ ts, ShowsAll ts ps → NestedAll ts) :
    Cuts (spellAll ps) fun ts => ShowsAll ts ps := by
  intro rest hr stack spot
  obtain ⟨ls, spot', hls, hscan⟩ :=
    hscans rest (fun d hd => endMeets_of_isSoft ps (hr d hd)) stack spot
  refine ⟨ls, spot', hscan, fun index => ?_⟩
  have hattach : TokenTree.attach index [] ls = (tokensFrom index ls, []) :=
    attach_of_no_comment (fun l hl => hkind l.spoken (hls ▸ List.mem_map_of_mem hl)) index
  obtain ⟨next, hnext⟩ := attach_append index [] ls (by rw [hattach])
  obtain ⟨ts, hts, htok, -⟩ := hbuilds (tokensFrom index ls)
    (by rw [← hls, ← map_lexeme_tokensFrom index ls, List.map_map, map_lexeme_tokensFrom]; rfl)
    fun t ht => comments_of_mem_tokensFrom ht
  refine ⟨next, ts, fun ms => ?_, hnested ts hts, hts⟩
  rw [hnext, hattach, htok]

theorem cuts_spellAll {ps : List Piece} (h : SoundAll ps) :
    Cuts (spellAll ps) fun ts => ShowsAll ts ps :=
  cuts_of_scans h.scans h.builds h.kind_ne fun _ => ShowsAll.nested h

/-! ## Passages -/

/-- A text that becomes a forest with a property wherever it stands. -/
def Passage (a : String) (P : List TokenTree → Prop) : Prop :=
  ∀ (g lead : String) (fresh : Bool), isGap g = true → isIndent lead = true →
    Cuts (g.toList ++ indentChars lead.toList fresh a.toList) P

theorem Passage.imp {a : String} {P P' : List TokenTree → Prop} (h : Passage a P)
    (hP : ∀ ts, P ts → P' ts) : Passage a P' :=
  fun g lead fresh hg hl => (h g lead fresh hg hl).imp hP

theorem softStart_indentChars {lead : String} (hl : isIndent lead = true) (fresh : Bool)
    {cs : List Char} (hc : SoftStart cs) : SoftStart (indentChars lead.toList fresh cs) := by
  cases cs with
  | nil => nofun
  | cons c cs =>
    have hlead : SoftStart lead.toList := fun d hd => by
      have hd := List.mem_of_mem_head? hd
      simp only [isIndent, List.all_eq_true, beq_iff_eq] at hl
      rw [hl d hd]
      decide
    unfold indentChars
    split_ifs with hline hfresh
    · rintro d ⟨⟩
      decide
    · exact hlead.append hc
    · exact hc

theorem Passage.append {a b : String} {P Q : List TokenTree → Prop} (ha : Passage a P)
    (hb : Passage b Q) (hsoft : SoftStart b.toList) : Passage (a ++ b) (Both P Q) := by
  intro g lead fresh hg hl
  obtain ⟨fresh', hsplit⟩ := indentChars_append lead.toList fresh a.toList b.toList
  rw [String.toList_append, hsplit, ← List.append_assoc]
  have hb := hb "" lead fresh' (by decide) hl
  rw [String.toList_empty, List.nil_append] at hb
  exact (ha g lead fresh hg hl).append hb (softStart_indentChars hl fresh' hsoft)

theorem isGap_of_isIndent {lead : String} (hl : isIndent lead = true) : isGap lead = true := by
  simp only [isIndent, isGap, List.all_eq_true, beq_iff_eq, Bool.or_eq_true] at hl ⊢
  exact fun c hc => .inl (hl c hc)

/-- A gap stays a gap when it is indented. -/
theorem exists_indentChars_gap {lead g : String} (hl : isIndent lead = true) (hg : isGap g = true)
    (fresh : Bool) :
    ∃ g', isGap g' = true ∧ indentChars lead.toList fresh g.toList = g'.toList := by
  refine ⟨String.ofList (indentChars lead.toList fresh g.toList), ?_, by simp⟩
  have hlead := isGap_of_isIndent hl
  simp only [isGap, String.toList_ofList, List.all_eq_true] at hg hlead ⊢
  generalize g.toList = cs at hg ⊢
  induction cs generalizing fresh with
  | nil => exact List.forall_mem_nil _
  | cons c cs ih =>
    obtain ⟨hc, hcs⟩ := List.forall_mem_cons.1 hg
    unfold indentChars
    split_ifs
    · exact List.forall_mem_cons.2 ⟨by decide, ih true hcs⟩
    · exact List.forall_mem_append.2 ⟨hlead, List.forall_mem_cons.2 ⟨hc, ih false hcs⟩⟩
    · exact List.forall_mem_cons.2 ⟨hc, ih false hcs⟩

theorem Passage.lead {a : String} {P : List TokenTree → Prop} (h : Passage a P) {g : String}
    (hg : isGap g = true) : Passage (g ++ a) P := by
  intro g₀ lead fresh hg₀ hl
  obtain ⟨fresh', hsplit⟩ := indentChars_append lead.toList fresh g.toList a.toList
  obtain ⟨g', hg', hgap⟩ := exists_indentChars_gap hl hg fresh
  rw [String.toList_append, hsplit, hgap, ← List.append_assoc, ← String.toList_append]
  exact h (g₀ ++ g') lead fresh' (isGap_append hg₀ hg') hl

theorem indentChars_spellAll {ps : List Piece} (h : SoundAll ps) (lead : String) (fresh : Bool) :
    indentChars lead.toList fresh (spellAll ps) = spellAll (indentAll lead fresh ps) := by
  cases ps with
  | nil => rfl
  | cons p ps =>
    have hps := h.2.2.indentChars_spellAll lead []
    simp only [List.append_nil] at hps
    rw [spellAll_cons, h.1.indentChars_spell lead fresh, hps, indentAll, spellAll_cons]
    simp [indentChars]

theorem Spelt.passage {a : String} {ps : List Piece} (h : Spelt a ps) :
    Passage a fun ts => Matches ts ps := by
  intro g lead fresh hg hl
  have hne : indentAll lead fresh ps ≠ [] := by
    obtain ⟨p, ps, rfl⟩ := List.exists_cons_of_ne_nil h.ne_nil
    simp [indentAll]
  rw [h.toList_eq, indentChars_spellAll h.sound, ← spellAll_leadWith g hne]
  refine (cuts_spellAll (soundAll_leadWith hg (h.sound.indent hl fresh))).imp fun ts hts => ?_
  exact (matches_leadWith.1 hts.matches).of_indent hl h.sound

/-- Indentation changes a text on one line in front of its first character only. -/
theorem exists_gap_of_unbroken {g lead : String} (hg : isGap g = true) (hl : isIndent lead = true)
    (fresh : Bool) {cs : List Char} (hn : '\n' ∉ cs) (hne : cs ≠ []) : ∃ g', isGap g' = true ∧
      g.toList ++ indentChars lead.toList fresh cs = g'.toList ++ cs := by
  have hunbroken := indentChars_gap_append lead.toList fresh [] hne hn []
  rw [indentChars, List.append_nil, List.nil_append] at hunbroken
  refine ⟨g ++ indentGap lead fresh "",
    isGap_append hg (isGap_indentGap hl fresh (g := "") (by decide)), ?_⟩
  simp [hunbroken, indentGap]

/-- Source that is read by itself is read in the same way wherever it stands. -/
theorem passage_of_read {source : String} {s : Source} (h : Source.read source = .ok s)
    (hn : '\n' ∉ source.toList) (ht : s.all.text = source) (hne : source ≠ "") :
    Passage source (Transplanted s.trees) := by
  intro g lead fresh hg hl rest hr stack spot
  obtain ⟨g', hg', hlead⟩ := exists_gap_of_unbroken hg hl fresh hn (by simpa using hne)
  rw [hlead, List.append_assoc]
  exact exists_transplanted h hn ht hne hg' hr stack spot

/-! ## Brackets -/

/-- A single pair of brackets around a forest with a property. -/
def Bracketed (b : Bracket) (P : List TokenTree → Prop) (ts : List TokenTree) : Prop :=
  ∃ o vs c, ts = [.group o vs c] ∧ o.IsWord (.mark b.opener) ∧ c.IsWord (.mark b.closer) ∧ P vs

theorem isWord_of_spoken {l : Lexeme} {g : String} {w : Word} (h : l.spoken = (g, w))
    (index : Nat) :
    (Token.mk l index []).IsWord w :=
  (is_of_spoken h rfl).isWord

theorem attach_cons_of_ne {l : Lexeme} (hl : l.kind ≠ .comment) (index : Nat)
    (pending ls : List Lexeme) :
    TokenTree.attach index pending (l :: ls) =
      (⟨l, index, pending.reverse⟩ :: (TokenTree.attach (index + 1) [] ls).1,
        (TokenTree.attach (index + 1) [] ls).2) := by
  rw [TokenTree.attach, if_neg (by simpa using hl)]

theorem kind_of_spoken {l : Lexeme} {g : String} {w : Word} (h : l.spoken = (g, w)) :
    l.kind = w.kind :=
  congrArg (fun p => p.2.kind) h

theorem text_of_spoken {l : Lexeme} {g : String} {w : Word} (h : l.spoken = (g, w)) :
    l.text = w.text :=
  congrArg (fun p => p.2.text) h

theorem Forms.bracketed {b : Bracket} {o c : Lexeme} {g g' : String}
    (ho : o.spoken = (g, .mark b.opener)) (hc : c.spoken = (g', .mark b.closer)) {ls : List Lexeme}
    {P : List TokenTree → Prop} (h : Forms ls P) :
    Forms (o :: (ls ++ [c])) (Bracketed b P) := by
  intro index
  obtain ⟨next, ts, hts, hnest, hP⟩ := h (index + 1)
  have hok : o.kind = .punct := kind_of_spoken ho
  have hck : c.kind = .punct := kind_of_spoken hc
  have hot : o.text = b.opener := text_of_spoken ho
  have hct : c.text = b.closer := text_of_spoken hc
  refine ⟨next + 1, [.group ⟨o, index, []⟩ ts ⟨c, next, []⟩], fun ms => ?_,
    ⟨⟨?_, ?_, hnest⟩, trivial⟩, _, _, _, rfl, isWord_of_spoken ho index,
    isWord_of_spoken hc next, hP⟩
  · rw [List.cons_append, attach_cons_of_ne (by simp [hok]), List.append_assoc,
      List.singleton_append, hts, attach_cons_of_ne (by simp [hck])]
    simp [TokenTree.tokensOf, TokenTree.tokens]
  · rw [Lexeme.opens, hok, hot]
    cases b <;> rfl
  · rw [Lexeme.closes, hck, hct]
    cases b <;> rfl

theorem Passage.bracketed {a : String} {P : List TokenTree → Prop} (h : Passage a P) (b : Bracket)
    {g' : String} (hg' : isGap g' = true) :
    Passage (b.opener ++ a ++ g' ++ b.closer) (Bracketed b P) := by
  intro g lead fresh hg hl rest hr stack spot
  have hopener := stands_opener b
  have hcloser := stands_closer b
  obtain ⟨fresh', hsplit⟩ :=
    indentChars_append lead.toList false a.toList (g'.toList ++ (b.closer.toList ++ []))
  have htext : indentChars lead.toList fresh (b.opener ++ a ++ g' ++ b.closer).toList =
      (indentGap lead fresh "").toList ++
        (b.opener.toList ++ (indentChars lead.toList false a.toList ++
        ((indentGap lead fresh' g').toList ++ b.closer.toList))) := by
    have houter := indentChars_gap_append lead.toList fresh [] hopener.text_ne hopener.unbroken
      (a.toList ++ (g'.toList ++ (b.closer.toList ++ [])))
    have hinner :=
      indentChars_gap_append lead.toList fresh' g'.toList hcloser.text_ne hcloser.unbroken []
    simp only [Word.mark] at houter hinner
    rw [hsplit, hinner] at houter
    simpa [indentGap, indentChars] using houter
  have hlead := isGap_append hg (isGap_indentGap hl fresh (g := "") (by decide))
  have hend := isGap_indentGap hl fresh' hg'
  obtain ⟨o, spot₁, ho, hopen⟩ := scanFrom_word hlead hopener
    (indentChars lead.toList false a.toList ++
      ((indentGap lead fresh' g').toList ++ (b.closer.toList ++ rest)))
    (fun d _ => meets_opener b d) (nextOpen_opener b stack) spot
  obtain ⟨ls, spot₂, hls, hforms⟩ := h "" lead false (by decide) hl
    ((indentGap lead fresh' g').toList ++ (b.closer.toList ++ rest)) (isSoft_head_closing hend rest)
    ((b.opener, o.place) :: stack) spot₁
  obtain ⟨c, spot₃, hc, hclose⟩ := scanFrom_word hend hcloser rest (fun d _ => meets_closer b d)
    (nextOpen_closer b stack o.place) spot₂
  refine ⟨o :: (ls ++ [c]), spot₃, ?_, hforms.bracketed ho hc⟩
  simp only [Word.mark, String.toList_append, String.toList_empty, List.append_assoc,
    List.nil_append]
    at hopen hclose hls
  simp only [htext, List.append_assoc, hopen, hls, hclose, except_map_map]
  congr 1
  funext rs
  simp

/-! ## Indentation -/

theorem indentChars_indentChars {lead ind : String} (hi : isIndent ind = true) (cs : List Char)
    (fresh : Bool) :
    indentChars lead.toList fresh (indentChars ind.toList fresh cs) =
      indentChars (lead ++ ind).toList fresh cs := by
  have hspaces : '\n' ∉ ind.toList := fun hn => by
    simp only [isIndent, List.all_eq_true, beq_iff_eq] at hi
    exact absurd (hi _ hn) (by decide)
  induction cs generalizing fresh with
  | nil => rfl
  | cons c cs ih =>
    by_cases hc : c = '\n'
    · simp [indentChars, hc, ih true]
    · cases fresh with
      | false => simpa [indentChars, hc] using ih false
      | true =>
        have hline : '\n' ∉ ind.toList ++ [c] := by simp [hspaces, Ne.symm hc]
        have hrun := indentChars_gap_append lead.toList true [] (by simp) hline
          (indentChars ind.toList false cs)
        simpa [indentChars, indentGapChars, hc, ih false] using hrun

/-- A passage stays one when its lines after the first are indented. -/
theorem Passage.indentTail {a : String} {P : List TokenTree → Prop} (h : Passage a P) {ind : String}
    (hi : isIndent ind = true) {b : String}
    (hb : b.toList = indentChars ind.toList false a.toList) :
    Passage b P := by
  intro g lead fresh hg hl
  have hboth : isIndent (lead ++ ind) = true := by
    simp only [isIndent, String.toList_append, List.all_append, Bool.and_eq_true] at *
    exact ⟨hl, hi⟩
  obtain ⟨g', hg', heq⟩ : ∃ g', isGap g' = true ∧ indentChars lead.toList fresh b.toList =
      g'.toList ++ indentChars (lead ++ ind).toList false a.toList := by
    rw [hb]
    cases ha : a.toList with
    | nil => exact ⟨"", by decide, rfl⟩
    | cons c cs =>
      by_cases hc : c = '\n'
      · exact ⟨"", by decide, by simp [indentChars, hc, indentChars_indentChars hi]⟩
      · refine ⟨if fresh then lead else "", ?_, ?_⟩
        · split_ifs
          · exact isGap_of_isIndent hl
          · decide
        · cases fresh <;> simp [indentChars, hc, indentChars_indentChars hi]
  rw [heq, ← List.append_assoc, ← String.toList_append]
  exact h (g ++ g') (lead ++ ind) false (isGap_append hg hg') hboth

/-! ## Whole sources -/

theorem indentChars_no_lead (fresh : Bool) (cs : List Char) : indentChars [] fresh cs = cs := by
  induction cs generalizing fresh with
  | nil => rfl
  | cons c cs ih =>
    rw [indentChars]
    split_ifs with hc <;> simp [ih, hc]

/-- A passage can be read by itself. -/
theorem Passage.source {a : String} {P : List TokenTree → Prop} (h : Passage a P) :
    ∃ s, Source.read a = .ok s ∧ P s.trees := by
  obtain ⟨ls, spot, hscan, hforms⟩ := h "" "" false (by decide) (by decide) [] nofun [] {}
  obtain ⟨next, ts, hts, hnest, hP⟩ := hforms 0
  rw [String.toList_empty, indentChars_no_lead, List.nil_append, List.append_nil,
    scanFrom_nil] at hscan
  have hattach := hts []
  rw [List.append_nil] at hattach
  simp only [TokenTree.attach, List.append_nil, List.reverse_nil] at hattach
  refine ⟨⟨TokenTree.tokensOf ts, TokenTree.ofTokens (TokenTree.tokensOf ts), []⟩, ?_, ?_⟩
  · simp only [Source.read, Lexeme.scan, hscan, Except.map, List.append_nil, bind, Except.bind,
      hattach, pure, Except.pure]
  · dsimp only
    rw [TokenTree.ofTokens, hnest.foldl_push]
    simpa [TokenTree.Levels.close] using hP

end WidgetBridge.WidgetGrammar
