import WidgetBridge.Proofs.WidgetGrammar.Forms
import WidgetBridge.Proofs.WidgetGrammar.Passage

/-!
# Arguments made of passages

The rules of `Reads` put a call together from texts with an outline.  Here a call is put together
from passages, so that arguments may hold source of which only its reading is known.

* `Slot` is the forest of a passage between commas, `Argument` that of a named argument, `Arguments`
  that of several ones, of which the first may have comments before it.
* `Passage.call` reads a head and bracketed arguments as a call (`Calls`).
* `passage_child` puts an expression that is read by itself into such a place.
-/

namespace WidgetBridge.WidgetGrammar

open WidgetBridge.Text

/-! ## Between commas -/

theorem splitFrom_of_hasTop {separator : String} {ts : List TokenTree}
    (h : Range.hasTop separator ts = false) (follow : Option Token) (part us : List TokenTree) :
    Range.splitFrom separator follow part (ts ++ us) =
      Range.splitFrom separator follow (ts.reverse ++ part) us := by
  induction ts generalizing part with
  | nil => rfl
  | cons t ts ih =>
    rw [Range.hasTop, Range.cutTop?] at h
    split_ifs at h with ht
    · cases h
    · rw [Option.isSome_map] at h
      cases t with
      | leaf t =>
        have ht : ¬ t.isPunct separator = true := ht
        rw [List.cons_append, Range.splitFrom, if_neg ht, ih h]
        simp
      | group o inner c =>
        rw [List.cons_append, Range.splitFrom, ih h]
        simp

theorem hasTop_append (text : String) (ts us : List TokenTree) :
    Range.hasTop text (ts ++ us) = (Range.hasTop text ts || Range.hasTop text us) := by
  induction ts with
  | nil => rfl
  | cons t ts ih =>
    simp only [Range.hasTop, List.cons_append, Range.cutTop?] at ih ⊢
    split_ifs
    · rfl
    · simpa using ih

theorem hasTop_bareAll (text : String) (ts : List TokenTree) :
    Range.hasTop text (bareAll ts) = Range.hasTop text ts := by
  rw [Range.hasTop, cutTop?_bareAll, Option.isSome_map, Range.hasTop]

theorem hasTop_of_lacks {text : String} {ps : List Piece} (h : lacks text ps = true)
    (hb : ∀ b : Bracket, b.opener ≠ text) {ts : List TokenTree} (hts : Matches ts ps) :
    Range.hasTop text ts = false := by
  induction ps generalizing ts with
  | nil =>
    rw [matches_nil] at hts
    rw [hts]
    rfl
  | cons p ps ih =>
    have step : ∀ {t : TokenTree} {us : List TokenTree}, t.isPunct text = false → ShowsAll us ps →
        lacks text ps = true → Range.hasTop text (t :: us) = false := fun ht hu hl => by
      have hrest := ih hl hu.matches
      rw [Range.hasTop] at hrest
      rw [Range.hasTop, Range.cutTop?, ht, if_neg Bool.false_ne_true, Option.isSome_map, hrest]
    cases p with
    | word g w =>
      obtain ⟨t, us, rfl, ht, hu⟩ := matches_word_cons.1 hts
      rw [lacks_word_cons, Bool.and_eq_true, Bool.not_eq_true'] at h
      exact step ((ht.isPunct_eq text).trans h.1) hu h.2
    | group g b inner g' =>
      obtain ⟨o, vs, c, us, rfl, ho, -, -, -, hu⟩ := matches_group_cons.1 hts
      refine step ((ho.isPunct_eq text).trans ?_) hu h
      simp [Word.isPunct, Word.mark, hb b]

/-- A forest that is read, between commas, as a range with a property. -/
structure Slot (Q : Range → Prop) (ts : List TokenTree) : Prop where
  ne_nil : ts ≠ []
  no_comma : Range.hasTop "," ts = false
  holds : ∀ follow, Q ⟨ts, follow⟩

theorem Slot.imp {P P' : Expr → Prop} {ts : List TokenTree} (h : Slot (ReadsAs P) ts)
    (hP : ∀ e, P e → P' e) :
    Slot (ReadsAs P') ts :=
  ⟨h.ne_nil, h.no_comma, fun follow fuel hf =>
    let ⟨e, he, hrange, hp⟩ := h.holds follow fuel hf
    ⟨e, he, hrange, hP e hp⟩⟩

theorem Phrase.passage {a : String} {Q : Range → Prop} (h : Phrase a Q) : Passage a (Slot Q) := by
  obtain ⟨ps, hs, hl, hQ⟩ := h
  exact hs.passage.imp fun ts hts =>
    ⟨hts.ne_nil hs.ne_nil, hasTop_of_lacks hl (by rintro ⟨⟩ <;> decide) hts, hQ ts hts⟩

/-! ## Labels -/

/-- A name by itself, with given comments before it. -/
def Label (name : String) (comments : List String) (ts : List TokenTree) : Prop :=
  ∃ t, ts = [.leaf t] ∧ t.isIdent = true ∧ t.text = name ∧ t.comments.map (·.text) = comments

theorem passage_label {name : String} (h : isName name = true) : Passage name (Label name []) := by
  refine (single_name h).spelt.passage.imp fun ts hts => ?_
  obtain ⟨t, us, rfl, ht, hu⟩ := matches_word_cons.1 hts
  rw [showsAll_nil] at hu
  subst hu
  exact ⟨t, rfl, ht.isIdent_eq, ht.text_eq, by rw [ht.comments_eq, List.map_nil]⟩

/-- A comment that ends before the end of the line. -/
structure IsRemark (s : String) : Prop where
  unbroken : '\n' ∉ s.toList
  cut : ∃ cs, s.toList = '/' :: cs ∧ startsLineComment '/' cs = false ∧
    cutLexeme '/' cs = .ok ⟨.comment, cs.length, []⟩

theorem passage_remarked {remark gap name : String} (hr : IsRemark remark) (hgap : isGap gap = true)
    (hne : gap ≠ "") (h : isName name = true) :
    Passage (remark ++ (gap ++ name)) (Label name [remark]) := by
  intro g lead fresh hg hl rest hrest stack spot
  obtain ⟨cs, hcs, hline, hcut⟩ := hr.cut
  have hword := stands_name h
  have hafter := isGap_indentGap hl false hgap
  have hlead := isGap_append hg (isGap_indentGap hl fresh (g := "") (by decide))
  have htext : indentChars lead.toList fresh (remark ++ (gap ++ name)).toList =
      (indentGap lead fresh "").toList ++ (remark.toList ++ ((indentGap lead false gap).toList ++
        name.toList)) := by
    have hinner :=
      indentChars_gap_append lead.toList false gap.toList hword.text_ne hword.unbroken []
    have houter := indentChars_gap_append lead.toList fresh [] (by simp [hcs]) hr.unbroken
      (gap.toList ++ (name.toList ++ []))
    simp only [Word.name] at hinner
    rw [hinner] at houter
    simpa [indentGap, indentChars] using houter
  have hsoft : SoftStart ((indentGap lead false gap).toList ++ (name.toList ++ rest)) := by
    intro d hd
    have hgne : (indentGap lead false gap).toList ≠ [] := by
      rw [indentGap, String.toList_ofList]
      cases hg : gap.toList with
      | nil => exact absurd (String.toList_inj.1 hg) hne
      | cons c cs =>
        rw [indentGapChars]
        split_ifs <;> simp
    obtain ⟨c, es, hces⟩ := List.exists_cons_of_ne_nil hgne
    rw [hces, List.cons_append] at hd
    cases hd
    exact isSoft_of_isGap hafter (by rw [hces]; exact List.mem_cons_self)
  obtain ⟨m, spot₁, hm, hremark⟩ := scanFrom_cut hlead (w := ⟨.comment, remark, []⟩) hcs (by decide)
    (cutLexeme_append hsoft hline hcut).2 (fun _ => rfl) spot
  obtain ⟨l, spot₂, hlw, hname⟩ := scanFrom_word hafter hword rest
    (fun d hd => (Word.name name).meets_of_isSoft (hrest d hd))
    (fun _ => nextOpen_of_not_isBracket rfl _ _) spot₁
  have hmk : m.kind = .comment := kind_of_spoken hm
  have hlk : l.kind = .ident := kind_of_spoken hlw
  refine ⟨[m, l], spot₂, ?_,
    fun index =>
      ⟨index + 1, [.leaf ⟨l, index, [m]⟩], fun ms => ?_, ?_, _, rfl, ?_, text_of_spoken hlw, ?_⟩⟩
  · simp only [Word.name, String.toList_append, List.append_assoc] at hremark hname
    rw [htext]
    simp only [List.append_assoc]
    rw [hremark, hname, except_map_map]
    rfl
  · rw [List.cons_append, TokenTree.attach, if_pos (by simp [hmk]), List.cons_append,
      attach_cons_of_ne (by simp [hlk])]
    rfl
  · exact ⟨⟨by simp [Lexeme.opens, hlk], by simp [Lexeme.closes, hlk]⟩, trivial⟩
  · simp [Token.isIdent, hlk]
  · simpa using text_of_spoken hm

/-! ## Arguments -/

/-- The forest of an argument, with given comments before it. -/
structure Argument (spec : ArgSpec) (comments : List String) (ts : List TokenTree) : Prop where
  slot : Slot (ReadsArg spec) ts
  leading : ∀ closer, leadingComments ts closer = comments

theorem Passage.named {head a name : String} {comments : List String} {P : Expr → Prop}
    (hhead : Passage head (Label name comments)) (ha : Passage a (Slot (ReadsAs P))) :
    Passage (head ++ ": " ++ a) (Argument (some name, P) comments) := by
  have hcolon : colon.Single := ⟨stands_of_isPlain (by decide), rfl, rfl⟩
  have hvalue := hcolon.spelt.passage.append (ha.lead (g := " ") (by decide)) (fun d hd => by
    have hd : ' ' = d := by simpa using hd
    rw [← hd]
    decide)
  have hall := hhead.append hvalue (fun d hd => by
    have hd : ':' = d := by simpa [colon, Word.mark] using hd
    rw [← hd]
    decide)
  have htext : head ++ (colon.text ++ (" " ++ a)) = head ++ ": " ++ a := by
    rw [show (": " : String) = colon.text ++ " " from rfl]
    simp only [String.append_assoc]
  rw [htext] at hall
  refine hall.imp ?_
  rintro _ ⟨_, _, rfl, ⟨n, rfl, hident, hname, hcomments⟩, _, vs, rfl, hcs, hslot⟩
  obtain ⟨c, us, rfl, hc, hu⟩ := matches_word_cons.1 hcs
  rw [showsAll_nil] at hu
  subst hu
  have hpunct : c.isPunct ":" = true := hc.isPunct_eq ":"
  refine ⟨⟨by simp, ?_, fun follow => ⟨⟨vs, follow⟩, ?_, ?_, hslot.holds follow⟩⟩, fun closer => ?_⟩
  · have hn : n.isPunct "," = false := by
      rw [Token.isIdent, beq_iff_eq] at hident
      simp [Token.isPunct, hident]
    have hcomma : c.isPunct "," = false := hc.isPunct_eq ","
    have hrest := hslot.no_comma
    simp only [Range.hasTop, List.cons_append, List.nil_append, Range.cutTop?, TokenTree.isPunct,
      TokenTree.first, hn, hcomma, Bool.false_eq_true, if_false, Option.isSome_map] at hrest ⊢
    exact hrest
  · simp [argumentRange, hident, hpunct, hname]
  · simp only [List.cons_append, List.nil_append, TokenTree.sizeOf', TokenTree.size]
    omega
  · simpa [leadingComments, TokenTree.first] using hcomments

/-- The forest of arguments with a comma after each, with given comments before the first. -/
structure Arguments (specs : List ArgSpec) (comments : List String)
    (ts : List TokenTree) : Prop where
  fit : ∀ follow, Fit (specs.map ReadsArg) (Range.splitFrom "," follow [] ts)
  leading : ∀ closer, leadingComments ts closer = comments

theorem leadingComments_append {ts : List TokenTree} (h : ts ≠ []) (us : List TokenTree)
    (closer : Token) :
    leadingComments (ts ++ us) closer = leadingComments ts closer := by
  obtain ⟨t, ts, rfl⟩ := List.exists_cons_of_ne_nil h
  rfl

theorem Argument.arguments {spec : ArgSpec} {comments : List String} {us vs : List TokenTree}
    (h : Argument spec comments us) {c : Token} (hc : c.isPunct "," = true) {specs : List ArgSpec}
    (hv : ∀ follow, Fit (specs.map ReadsArg) (Range.splitFrom "," follow [] vs)) :
    Arguments (spec :: specs) comments (us ++ .leaf c :: vs) := by
  refine ⟨fun follow => ?_, fun closer => ?_⟩
  · rw [splitFrom_of_hasTop h.slot.no_comma, Range.splitFrom, if_pos hc,
      if_neg (by simpa using h.slot.ne_nil)]
    simp only [List.append_nil, List.reverse_reverse]
    exact List.Forall₂.cons (h.slot.holds (some c)) (hv follow)
  · rw [leadingComments_append h.slot.ne_nil, h.leading]

theorem softStart_comma : SoftStart ",".toList := by
  intro d hd
  have hd : ',' = d := by simpa using hd
  rw [← hd]
  decide

theorem passage_comma : Passage "," fun ts => ∃ c, ts = [.leaf c] ∧ c.isPunct "," = true := by
  refine spelt_comma.passage.imp fun ts hts => ?_
  obtain ⟨c, us, rfl, hc, hu⟩ := matches_word_cons.1 hts
  rw [showsAll_nil] at hu
  subst hu
  exact ⟨c, rfl, hc.isPunct_eq ","⟩

/-- Arguments with a gap before each and a comma after it; the gap before the first is left out. -/
theorem passage_arguments {gap : String} (hg : isGap gap = true) (hne : gap ≠ "") {as : List String}
    {specs : List ArgSpec} (h : List.Forall₂ (fun a s => Passage a (Argument s [])) as specs)
    {a : String} {spec : ArgSpec} {comments : List String}
    (ha : Passage a (Argument spec comments)) :
    Passage (a ++ "," ++ String.join (as.map fun a => gap ++ a ++ ","))
      (Arguments (spec :: specs) comments) := by
  induction h generalizing a spec comments with
  | nil =>
    rw [List.map_nil, String.join_nil, String.append_empty]
    refine (ha.append passage_comma softStart_comma).imp ?_
    rintro _ ⟨us, _, rfl, hu, c, rfl, hc⟩
    exact hu.arguments hc fun _ => List.Forall₂.nil
  | @cons b s as specs hb _ ih =>
    rw [List.map_cons, String.join_cons]
    have hrest := (ih hb).lead hg
    have hsoft : SoftStart
        (gap ++ (b ++ "," ++ String.join (as.map fun a => gap ++ a ++ ","))).toList := by
      intro d hd
      obtain ⟨c, cs, hcs⟩ := List.exists_cons_of_ne_nil (by simpa using hne : gap.toList ≠ [])
      rw [String.toList_append, hcs, List.cons_append] at hd
      cases hd
      exact isSoft_of_isGap hg (by rw [hcs]; exact List.mem_cons_self)
    have hall := ha.append (passage_comma.append hrest hsoft) (by
      rw [String.toList_append]
      exact softStart_comma.append hsoft)
    have htext :
        a ++ ("," ++ (gap ++ (b ++ "," ++ String.join (as.map fun a => gap ++ a ++ ",")))) =
        a ++ "," ++ (gap ++ b ++ "," ++ String.join (as.map fun a => gap ++ a ++ ",")) := by
      simp only [String.append_assoc]
    rw [htext] at hall
    refine hall.imp ?_
    rintro _ ⟨us, _, rfl, hu, _, vs, rfl, ⟨c, rfl, hc⟩, hv⟩
    exact hu.arguments hc hv.fit

/-! ## Calls -/

/-- What stands before the arguments of a call. -/
structure CallHead (callee : String) (us : List TokenTree) : Prop where
  ne_nil : us ≠ []
  no_comma : Range.hasTop "," us = false
  reads : ∀ (o : Token) (vs : List TokenTree) (c : Token), o.isPunct "(" = true →
    ∃ typeArgs, dropConst (us ++ [.group o vs c]) = us ++ [.group o vs c] ∧
      literalTokens? (us ++ [.group o vs c]) = none ∧ atom? (us ++ [.group o vs c]) = none ∧
      shapeOf (us ++ [.group o vs c]) = .callOf callee typeArgs vs c

/-- A call with arguments as they are specified, after comments. -/
def Calls (callee : String) (specs : List ArgSpec) (comments : List String) (e : Expr) : Prop :=
  ∃ r typeArgs args, e = .call r callee typeArgs args comments ∧ ArgsMeet specs args ∧
    sizeOfExprs (args.map (·.2)) + 2 ≤ TokenTree.sizeOf' r.trees

/-- A head and bracketed arguments are read as a call. -/
theorem CallHead.readsAs {callee : String} {us vs : List TokenTree} (hu : CallHead callee us)
    {o c : Token} (ho : o.isPunct "(" = true) {specs : List ArgSpec} {comments : List String}
    (hfit : Fit (specs.map ReadsArg) (Range.splitFrom "," (some c) [] vs))
    (hleading : leadingComments vs c = comments) (follow : Option Token) :
    ReadsAs (Calls callee specs comments) ⟨us ++ [.group o vs c], follow⟩ := by
  intro fuel hf
  obtain ⟨typeArgs, hbare, htokens, hatom, hshape⟩ := hu.reads o vs c ho
  have hpos := sizeOf'_pos hu.ne_nil
  have hparts := sizeOfParts_splitFrom "," (some c) [] vs
  simp only [sizeOf'_append, TokenTree.sizeOf', TokenTree.size] at hf hparts
  obtain ⟨fuel, rfl⟩ : ∃ n, fuel = n + 2 := ⟨fuel - 2, by omega⟩
  obtain ⟨args, hargs, hmeet, hsize⟩ := argsOf_of_fit hfit (by omega :
      3 * sizeOfParts (Range.splitFrom "," (some c) [] vs) + 1 ≤ fuel)
  refine ⟨.call ⟨us ++ [.group o vs c], follow⟩ callee typeArgs args comments, ?_, rfl, _, _, _,
    rfl, hmeet, ?_⟩
  · rw [exprOf_succ (by simp) (Or.inl hbare), htokens, hatom, hshape]
    simp only [shapeExpr, Range.splitTop, hargs, bind, Except.bind, pure, Except.pure, hleading]
  · simp only [sizeOf'_append, TokenTree.sizeOf', TokenTree.size]
    omega

theorem Passage.call {head inner callee : String} {specs : List ArgSpec} {comments : List String}
    (hhead : Passage head (CallHead callee)) (hinner : Passage inner (Arguments specs comments))
    {g' : String} (hg' : isGap g' = true) :
    Passage (head ++ ("(" ++ inner ++ g' ++ ")"))
      (Slot (ReadsAs (Calls callee specs comments))) := by
  have hall := hhead.append (hinner.bracketed .round hg') (fun d hd => by
    have hd : '(' = d := by simpa [Bracket.opener] using hd
    rw [← hd]
    decide)
  refine hall.imp ?_
  rintro _ ⟨us, _, rfl, hu, o, vs, c, rfl, ho, -, hv⟩
  refine ⟨by simp, ?_, hu.readsAs (ho.isPunct_eq "(") (hv.fit (some c)) (hv.leading c)⟩
  have hcomma : o.isPunct "," = false := ho.isPunct_eq ","
  rw [hasTop_append, hu.no_comma]
  simp [Range.hasTop, Range.cutTop?, TokenTree.isPunct, TokenTree.first, hcomma]

/-- The same for a head and arguments with an outline. -/
theorem reads_callOf {head inner callee : String} {ps : List Piece} (hs : Spelt head ps)
    (hl : lacks "," ps = true) (hhead : ∀ ts, Matches ts ps → CallHead callee ts)
    {specs : List ArgSpec} (h : Listing inner (specs.map ReadsArg)) {g' : String}
    (hg' : isGap g' = true) :
    Reads (head ++ ("(" ++ inner ++ g' ++ ")")) (Calls callee specs []) := by
  obtain ⟨qs, hq, hsplit⟩ := h.bracketed .round hg'
  have hspelt := hs.append_soft hq (c := '(') (by simp [Bracket.opener]) (by decide)
  refine ⟨_, hspelt, ?_, fun ts hts follow => ?_⟩
  · rw [lacks_append, hl]
    rfl
  · obtain ⟨us, vs, rfl, hu, hv⟩ := (matches_append hs.ne_nil).1 hts
    obtain ⟨o, ws, c, xs, rfl, ho, hc, -, hw, hx⟩ := matches_group_cons.1 hv.matches
    rw [showsAll_nil] at hx
    subst hx
    exact (hhead us hu).readsAs (ho.isPunct_eq "(") (hsplit ws hw.matches (some c))
      (leadingComments_eq_nil hw.matches hc.comments_eq) follow

theorem callHead_of_path {a b : String} (ha : isCallable a = true) {ts : List TokenTree}
    (hts : Matches ts [.word "" (.name a), .word "" dot, .word "" (.name b)]) :
    CallHead (a ++ "." ++ b) ts := by
  obtain ⟨hname, hconst⟩ := isCallable_iff.1 ha
  obtain ⟨n, us, rfl, hn, hu⟩ := matches_word_cons.1 hts
  obtain ⟨d, vs, rfl, hd, hv⟩ := matches_word_cons.1 hu.matches
  obtain ⟨m, ws, rfl, hm, hw⟩ := matches_word_cons.1 hv.matches
  rw [showsAll_nil] at hw
  subst hw
  have hni : n.isIdent = true := hn.isIdent_eq
  have hmi : m.isIdent = true := hm.isIdent_eq
  have hdot : d.isPunct "." = true := hd.isPunct_eq "."
  refine ⟨by simp, hasTop_of_lacks rfl (by rintro ⟨⟩ <;> decide) hts, fun o vs c ho => ⟨"",
    dropConst_leaf (hn.not_const fun _ => hconst) _, ?_, rfl, ?_⟩⟩
  · simp [literalTokens?, hn.kind_eq, Word.name]
  · simp [shapeOf, startsAngle, collection?, openShape, callShape, callHead?, dottedName,
      join, hni, hmi, hdot, ho, hn.text_eq, hm.text_eq, Word.name, ne_angle_of_isName hname]

/-- A call of a name behind a dot. -/
theorem reads_pathCall {a b inner : String} (ha : isCallable a = true) (hb : isName b = true)
    {specs : List ArgSpec} (h : Listing inner (specs.map ReadsArg)) {g' : String}
    (hg' : isGap g' = true) :
    Reads (a ++ "." ++ b ++ ("(" ++ inner ++ g' ++ ")")) (Calls (a ++ "." ++ b) specs []) :=
  reads_callOf (spelt_path (isCallable_iff.1 ha).1 hb) rfl (fun _ => callHead_of_path ha) h hg'

theorem callHead_of_name {callee : String} (h : isCallable callee = true) {ts : List TokenTree}
    (hts : Matches ts [.word "" (.name callee)]) : CallHead callee ts := by
  obtain ⟨hname, hconst⟩ := isCallable_iff.1 h
  obtain ⟨n, us, rfl, hn, hu⟩ := matches_word_cons.1 hts
  rw [showsAll_nil] at hu
  subst hu
  refine ⟨by simp, hasTop_of_lacks rfl (by rintro ⟨⟩ <;> decide) hts, fun o vs c ho => ⟨"",
    dropConst_leaf (hn.not_const fun _ => hconst) _, ?_, rfl, shapeOf_call hn hname ho vs⟩⟩
  simp [literalTokens?, hn.kind_eq, Word.name]

theorem passage_callee {callee : String} (h : isCallable callee = true) :
    Passage callee (CallHead callee) :=
  (single_name (isCallable_iff.1 h).1).spelt.passage.imp fun _ => callHead_of_name h

/-! ## Optional types -/

/-- A question mark may stand before the end of type arguments. -/
theorem scans_optional : Scans [.word "" (.mark "?"), .word "" (.mark ">")] := by
  intro rest hr stack spot
  have hgreater : (Word.mark ">").Stands := stands_of_isPlain (by decide)
  have hnone : isGap "" = true := by decide
  obtain ⟨l, spot₁, hl, hmark⟩ := scanFrom_cut hnone (w := .mark "?") rfl (by decide)
    (rfl : cutLexeme '?' ([] ++ (">".toList ++ rest)) = _)
      (nextOpen_of_not_isBracket rfl stack) spot
  obtain ⟨m, spot₂, hm, hend⟩ :=
    scanFrom_word hnone hgreater rest hr (nextOpen_of_not_isBracket rfl stack) spot₁
  refine ⟨[l, m], spot₂, by simp [hl, hm, wordsOf, Piece.words], ?_⟩
  simp only [Word.mark, String.toList_empty, List.nil_append] at hmark hend
  simp only [spellAll_cons, spellAll_nil, Piece.spell, Word.mark, String.toList_empty,
    List.nil_append, List.append_nil, List.append_assoc, hmark, hend, except_map_map]
  rfl

/-- The name of a constructor with an optional type. -/
def optionalHead (callee type : String) : String := callee ++ ("<" ++ (type ++ "?>"))

/-- The outline of a constructor with an optional type. -/
def optionalPieces (gap callee type : String) : List Piece :=
  [.word gap (.name callee), .word "" (.mark "<"), .word "" (.name type), .word "" (.mark "?"),
    .word "" (.mark ">")]

theorem scans_optionalPieces {gap callee type : String} (hg : isGap gap = true)
    (h : isName callee = true) (ht : isName type = true) :
    Scans (optionalPieces gap callee type) := by
  obtain ⟨c, cs, hcs, hc, -⟩ := isName_iff.1 ht
  have hnone : isGap "" = true := by decide
  have hless : (Word.mark "<").Stands := stands_of_isPlain (by decide)
  have htype := scans_cons (scans_word hnone (stands_name ht) rfl) scans_optional (by
    intro d hd
    have hd : '?' = d := by simpa [Piece.spell, Word.mark] using hd
    rw [← hd]
    rfl) (by simp [Piece.spell, Word.mark])
  have hangle := scans_cons (scans_word hnone hless rfl) htype (by
    intro d hd
    have hd : c = d := by simpa [Piece.spell, Word.name, hcs] using hd
    rw [← hd]
    simp [Piece.meets, Word.meets, Word.mark, not_mem_joiningMarks_of_isNameStart hc]) (by
    simp [Piece.spell, Word.name, hcs])
  exact scans_cons (scans_word hg (stands_name h) rfl) hangle (by
    intro d hd
    have hd : '<' = d := by simpa [Piece.spell, Word.mark] using hd
    rw [← hd]
    rfl) (by simp [Piece.spell, Word.mark])

theorem exists_optionalTokens {gap callee type : String} {ts : List TokenTree}
    (h : ShowsAll ts (optionalPieces gap callee type)) : ∃ n l t q m,
      ts = [.leaf n, .leaf l, .leaf t, .leaf q, .leaf m] ∧ n.IsWord (.name callee) ∧
        l.IsWord (.mark "<") ∧
        t.IsWord (.name type) ∧ q.IsWord (.mark "?") ∧ m.IsWord (.mark ">") := by
  obtain ⟨n, _, rfl, hn, hu₁⟩ := matches_word_cons.1 h.matches
  obtain ⟨l, _, rfl, hl, hu₂⟩ := matches_word_cons.1 hu₁.matches
  obtain ⟨t, _, rfl, ht, hu₃⟩ := matches_word_cons.1 hu₂.matches
  obtain ⟨q, _, rfl, hq, hu₄⟩ := matches_word_cons.1 hu₃.matches
  obtain ⟨m, _, rfl, hm, hu₅⟩ := matches_word_cons.1 hu₄.matches
  rw [showsAll_nil] at hu₅
  subst hu₅
  exact ⟨n, l, t, q, m, rfl, hn, hl, ht, hq, hm⟩

theorem callHead_of_optionalPieces {gap callee type : String} (h : isCallable callee = true)
    (ht : isName type = true) {ts : List TokenTree}
    (hts : ShowsAll ts (optionalPieces gap callee type)) :
    CallHead callee ts := by
  obtain ⟨hname, hconst⟩ := isCallable_iff.1 h
  obtain ⟨n, l, t, q, m, rfl, hn, hl, ht', hq, hm⟩ := exists_optionalTokens hts
  refine ⟨by simp, ?_, fun o vs c ho => ?_⟩
  · have hns : n.isPunct "," = false := hn.isPunct_eq ","
    have hls : l.isPunct "," = false := hl.isPunct_eq ","
    have hts : t.isPunct "," = false := ht'.isPunct_eq ","
    have hqs : q.isPunct "," = false := hq.isPunct_eq ","
    have hms : m.isPunct "," = false := hm.isPunct_eq ","
    simp [Range.hasTop, Range.cutTop?, TokenTree.isPunct, TokenTree.first, hns, hls, hts, hqs, hms]
  · have hne : type ≠ "<" ∧ type ≠ ">" ∧ type ≠ ";" ∧ type ≠ "=>" := by
      refine ⟨?_, ?_, ?_, ?_⟩ <;> (rintro rfl; revert ht; decide)
    have hdot : l.isPunct "." = false := hl.isPunct_eq "."
    have hident : n.isIdent = true := hn.isIdent_eq
    refine ⟨TokenTree.textOf [.leaf t, .leaf q], dropConst_leaf (hn.not_const fun _ => hconst) _,
      ?_, rfl, ?_⟩
    · simp [literalTokens?, hn.kind_eq, Word.name]
    · simp [shapeOf, startsAngle, collection?, openShape, callShape, callHead?,
        dottedName, typeArgs?, typeArgsFrom, join, hident, hdot, ho, hn.text_eq, hl.text_eq,
        ht'.text_eq, hq.text_eq, hm.text_eq, Word.mark, Word.name, hne, ne_angle_of_isName hname]

theorem passage_optionalHead {callee type : String} (h : isCallable callee = true)
    (ht : isName type = true) :
    Passage (optionalHead callee type) (CallHead callee) := by
  have hname := (isCallable_iff.1 h).1
  intro g lead fresh hg hl
  have hchars : (optionalHead callee type).toList =
      callee.toList ++ ('<' :: (type.toList ++ ['?', '>'])) := by simp [optionalHead]
  have hn : '\n' ∉ (optionalHead callee type).toList := by
    simp [hchars, newline_not_mem_of_isName hname, newline_not_mem_of_isName ht]
  obtain ⟨g', hg', htext⟩ := exists_gap_of_unbroken hg hl fresh hn (by simp [hchars])
  have hspell : g'.toList ++ (optionalHead callee type).toList =
      spellAll (optionalPieces g' callee type) := by
    simp [hchars, optionalPieces, Piece.spell, Word.name, Word.mark]
  rw [htext, hspell]
  refine (cuts_of_scans (scans_optionalPieces hg' hname ht) ?_ ?_ fun ts hts => ?_).imp
    fun ts hts => callHead_of_optionalPieces h ht hts
  · exact builds_cons (builds_word rfl)
      (builds_cons (builds_word rfl) (builds_cons (builds_word rfl)
      (builds_cons (builds_word rfl) (builds_word rfl))))
  · simp [optionalPieces, wordsOf, Piece.words, Word.name, Word.mark]
  · obtain ⟨n, l, t, q, m, rfl, hn, hl, ht', hq, hm⟩ := exists_optionalTokens hts
    exact ⟨TokenTree.nested_of_isWord hn rfl, TokenTree.nested_of_isWord hl rfl,
      TokenTree.nested_of_isWord ht' rfl, TokenTree.nested_of_isWord hq rfl,
      TokenTree.nested_of_isWord hm rfl, trivial⟩

/-! ## Source inside an argument -/

/-- An expression that is read by itself, on one line and without a comma outside of brackets, is
read as the same source with the same callee between the commas of another source. -/
theorem passage_child {source : String} {s : Source} {e : Expr} (h : Source.read source = .ok s)
    (hn : '\n' ∉ source.toList) (ht : s.all.text = source) (hne : source ≠ "")
    (hcomma : Range.hasTop "," s.trees = false) (he : s.all.expr = .ok e) :
    Passage source (Slot (ReadsAs fun e' => e'.text = source ∧ e'.callee? = e.callee?)) := by
  refine (passage_of_read h hn ht hne).imp fun us hus => ?_
  have htext : TokenTree.textOf us = source := hus.text.trans ht
  refine ⟨?_, ?_, fun follow fuel hf => ?_⟩
  · rintro rfl
    exact hne htext.symm
  · rw [← hasTop_bareAll, hus.bare, hasTop_bareAll, hcomma]
  · have hlike : s.all.Like ⟨us, follow⟩ := hus.bare
    obtain ⟨e', he', hrange, hcallee⟩ := readsAs_of_like he hlike fuel hf
    refine ⟨e', he', hrange, ?_, hcallee⟩
    rw [Expr.text, hrange]
    exact htext

end WidgetBridge.WidgetGrammar
