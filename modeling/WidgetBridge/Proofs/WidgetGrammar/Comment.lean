import WidgetBridge.Proofs.WidgetGrammar.Expressions
import WidgetBridge.Proofs.WidgetGrammar.Extension

/-!
# Comments between the brackets of a call

Block comments nest.  A text that does not close a comment may stand in one, but the comment ends
with the mark behind the text only if the text opens no other (`blockComment_body`).

* `expr_commented` reads a call that holds nothing but a comment;
* `read_unterminated` is the failure if the comment opens another.
-/

namespace WidgetBridge.WidgetGrammar

open WidgetBridge.Text

/-! ## Marks in a text -/

/-- How many comments are opened in a text. -/
def commentStarts : List Char → Nat
  | '/' :: '*' :: cs => commentStarts cs + 1
  | _ :: cs => commentStarts cs
  | [] => 0

theorem isPrefix_pair {x y c : Char} {cs : List Char} :
    [x, y] <+: c :: cs ↔ c = x ∧ ∃ ds, cs = y :: ds := by
  constructor
  · rintro ⟨ds, hds⟩
    rw [List.cons_append, List.cons_append, List.cons.injEq] at hds
    exact ⟨hds.1.symm, ds, hds.2.symm⟩
  · rintro ⟨rfl, ds, rfl⟩
    exact ⟨ds, rfl⟩

/-- A pair does not reach over a character that is not its second one. -/
theorem isPrefix_pair_append {x y c d : Char} (h : y ≠ d) {cs rest : List Char} :
    [x, y] <+: c :: (cs ++ d :: rest) ↔ [x, y] <+: c :: cs := by
  rw [isPrefix_pair, isPrefix_pair]
  refine and_congr_right fun _ => ?_
  cases cs with
  | nil => simp [Ne.symm h]
  | cons e es => simp

/-- A character that is in no pair parts a text in two. -/
theorem infix_pair_append {x y d : Char} (hx : x ≠ d) (hy : y ≠ d) {cs rest : List Char} :
    [x, y] <:+: cs ++ d :: rest ↔ [x, y] <:+: cs ∨ [x, y] <:+: rest := by
  induction cs with
  | nil =>
    have hhead : ¬ [x, y] <+: d :: rest := fun h => hx (isPrefix_pair.1 h).1.symm
    simp [List.infix_cons_iff, hhead]
  | cons c cs ih =>
    rw [List.cons_append, List.infix_cons_iff, ih, isPrefix_pair_append hy, List.infix_cons_iff,
      or_assoc]

/-- What the last case of `commentStarts` says. -/
theorem not_opens {c : Char} {cs : List Char} (h : ∀ ds, c = '/' → cs = '*' :: ds → False) :
    ¬ ['/', '*'] <+: c :: cs := by
  rw [isPrefix_pair]
  rintro ⟨hc, ds, hcs⟩
  exact h ds hc hcs

theorem commentStarts_eq_zero_iff {cs : List Char} :
    commentStarts cs = 0 ↔ ¬ ['/', '*'] <:+: cs := by
  fun_induction commentStarts cs with
  | case1 cs ih => simp [List.infix_cons_iff]
  | case2 c cs h ih =>
    rw [ih, List.infix_cons_iff, not_or]
    exact (and_iff_right (not_opens h)).symm
  | case3 => simp

/-- A character with which no mark starts is passed over. -/
theorem blockComment_cons {c : Char} {cs : List Char} (hopen : ¬ ['/', '*'] <+: c :: cs)
    (hclose : ¬ ['*', '/'] <+: c :: cs) (depth taken : Nat) :
    blockComment depth taken (c :: cs) = blockComment depth (taken + 1) cs := by
  rw [isPrefix_pair] at hopen hclose
  apply blockComment.eq_4
  · exact fun ds hc hcs => hopen ⟨hc, ds, hcs⟩
  · exact fun ds _ hc hcs => hclose ⟨hc, ds, hcs⟩
  · exact fun _ ds _ hc hcs => hclose ⟨hc, ds, hcs⟩

/-- A text that does not close a comment is passed over, and what it opens is open behind it. -/
theorem blockComment_body {body : List Char} (h : ¬ ['*', '/'] <:+: body) (depth taken : Nat)
    (rest : List Char) : blockComment depth taken (body ++ ' ' :: rest) =
      blockComment (depth + commentStarts body) (taken + body.length + 1) rest := by
  fun_induction commentStarts body generalizing depth taken with
  | case1 cs ih =>
    have hcs : ¬ ['*', '/'] <:+: cs :=
      fun hc => h (hc.trans (List.suffix_append ['/', '*'] cs).isInfix)
    rw [List.cons_append, List.cons_append, blockComment, ih hcs]
    congr 1
    · omega
    · simp only [List.length_cons]
      omega
  | case2 c cs hopen ih =>
    rw [List.infix_cons_iff, not_or] at h
    have hmark := not_opens hopen
    rw [← isPrefix_pair_append (d := ' ') (by decide)] at hmark
    have hclose : ¬ ['*', '/'] <+: c :: (cs ++ ' ' :: rest) :=
      mt (isPrefix_pair_append (by decide)).1 h.1
    rw [List.cons_append, blockComment_cons hmark hclose, ih h.2]
    congr 1
    simp only [List.length_cons]
    omega
  | case3 =>
    rw [List.nil_append, blockComment_cons (by simp) (by simp)]
    rfl

theorem blockComment_eq_none {cs : List Char} (h : ¬ ['*', '/'] <:+: cs) (depth taken : Nat) :
    blockComment depth taken cs = none := by
  fun_induction blockComment depth taken cs with
  | case1 depth taken cs ih =>
    exact ih fun hc => h (hc.trans (List.suffix_append ['/', '*'] cs).isInfix)
  | case2 taken cs => exact absurd (List.prefix_append ['*', '/'] cs).isInfix h
  | case3 depth taken cs ih => exact absurd (List.prefix_append ['*', '/'] cs).isInfix h
  | case4 depth taken c cs _ _ _ ih =>
    exact ih fun hc => h (hc.trans (List.suffix_cons c cs).isInfix)
  | case5 => rfl

/-- A comment with a text in it. -/
def commented (body : String) : String := "/*" ++ body ++ " */"

theorem toList_commented (body : String) :
    (commented body).toList = '/' :: '*' :: (body.toList ++ [' ', '*', '/']) := by
  simp [commented]

/-- A comment ends with its own mark, if nothing in it is one. -/
theorem cutLexeme_commented {body : String} (hopen : ¬ ['/', '*'] <:+: body.toList)
    (hclose : ¬ ['*', '/'] <:+: body.toList) (rest : List Char) :
    cutLexeme '/' ('*' :: (body.toList ++ ' ' :: '*' :: '/' :: rest)) =
      .ok ⟨.comment, body.toList.length + 4, []⟩ := by
  have hend : blockComment 0 2 (body.toList ++ ' ' :: '*' :: '/' :: rest) =
      some (2 + body.toList.length + 1 + 2) := by
    rw [blockComment_body hclose, commentStarts_eq_zero_iff.2 hopen, blockComment]
  simp only [cutLexeme, commentAt?, hend]
  congr 2
  omega

/-- A comment that opens another in front of its mark has no end. -/
theorem cutLexeme_unterminated {body : String} (hopen : ['/', '*'] <:+: body.toList)
    (hclose : ¬ ['*', '/'] <:+: body.toList) {rest : List Char} (hrest : ¬ ['*', '/'] <:+: rest) :
    cutLexeme '/' ('*' :: (body.toList ++ ' ' :: '*' :: '/' :: rest)) =
      .error (.at 0 "unterminated block comment") := by
  have hpos : commentStarts body.toList ≠ 0 := fun h => commentStarts_eq_zero_iff.1 h hopen
  have hend : blockComment 0 2 (body.toList ++ ' ' :: '*' :: '/' :: rest) = none := by
    obtain ⟨depth, hdepth⟩ := Nat.exists_eq_succ_of_ne_zero hpos
    rw [blockComment_body hclose, hdepth, Nat.zero_add, blockComment, blockComment_eq_none hrest]
  simp only [cutLexeme, commentAt?, hend]

/-! ## Calls with a comment -/

/-- The source of a call that holds nothing but a comment. -/
def commentedCall (callee body : String) : String := callee ++ "(" ++ commented body ++ ")"

theorem toList_commentedCall (callee body : String) :
    (commentedCall callee body).toList = callee.toList ++ '(' :: '/' :: '*' ::
      (body.toList ++ [' ', '*', '/', ')']) := by
  simp [commentedCall, toList_commented]

theorem Spot.place_advance {cs : List Char} (h : '\n' ∉ cs) (spot : Spot) :
    (spot.advance cs).place = ⟨spot.place.line, spot.place.column + cs.length⟩ := by
  induction cs generalizing spot with
  | nil => rfl
  | cons c cs ih =>
    rw [List.mem_cons, not_or] at h
    have hstep : spot.advance (c :: cs) = (spot.step c).advance cs := rfl
    have hc : (c == '\n') = false := by simpa using Ne.symm h.1
    rw [hstep, ih h.2]
    simp only [Spot.step, hc, Bool.false_eq_true, if_false, List.length_cons]
    congr 1
    omega

/-- The head of a call is cut into its two lexemes. -/
theorem scan_head {callee : String} (h : isName callee = true) (rest : List Char) :
    ∃ n o, n.spoken = ("", .name callee) ∧ o.spoken = ("", .mark Bracket.round.opener) ∧
      scanFrom [] [] {} (callee.toList ++ '(' :: rest) =
        (scanFrom [("(", o.place)] [] ((Spot.advance {} callee.toList).advance ['(']) rest).map
          ([n, o] ++ ·) := by
  have hname := stands_name h
  have hround := stands_opener .round
  obtain ⟨c, cs, hc, hb, hcut⟩ := hname.cut
  obtain ⟨d, ds, hd, hb', hcut'⟩ := hround.cut
  have hstack : ∀ place, nextOpen [] (Word.name callee).kind (Word.name callee).text place =
      .ok [] :=
    nextOpen_of_not_isBracket rfl []
  obtain ⟨n, hn, hscan⟩ := scanFrom_cut_at (g := "") (by decide) hc hb
    (hcut ('(' :: rest) fun d hd => (Word.name callee).meets_of_isSoft (by cases hd; decide)) hstack
      {}
  obtain ⟨o, ho, hscan'⟩ := scanFrom_cut_at (g := "") (by decide) hd hb'
    (hcut' rest fun d _ => meets_opener .round d)
    (nextOpen_opener .round []) (Spot.advance {} callee.toList)
  refine ⟨n, o, hn, ho, ?_⟩
  calc scanFrom [] [] {} (callee.toList ++ '(' :: rest)
      = (scanFrom [] [] (Spot.advance {} callee.toList) ('(' :: rest)).map (n :: ·) := hscan
    _ = ((scanFrom [("(", o.place)] [] ((Spot.advance {} callee.toList).advance ['(']) rest).map
          (o :: ·)).map (n :: ·) := congrArg (Except.map (n :: ·)) hscan'
    _ = _ := except_map_map _ _ _

/-- A comment is cut off in front of the closing bracket, and the call is at its end. -/
theorem scan_commented {body : String} (hopen : ¬ ['/', '*'] <:+: body.toList)
    (hclose : ¬ ['*', '/'] <:+: body.toList) (place : Place) (spot : Spot) :
    ∃ k c, k.spoken = ("", ⟨.comment, commented body, []⟩) ∧
      c.spoken = ("", .mark Bracket.round.closer) ∧
      scanFrom [("(", place)] [] spot ('/' :: '*' :: (body.toList ++ [' ', '*', '/', ')'])) =
        .ok [k, c] := by
  have hcut : cutLexeme '/' ('*' :: (body.toList ++ [' ', '*', '/']) ++ [')']) =
      .ok ⟨.comment, ('*' :: (body.toList ++ [' ', '*', '/'])).length, []⟩ := by
    simpa using cutLexeme_commented hopen hclose [')']
  have hstack : ∀ inner, nextOpen [("(", place)] .comment (commented body) inner =
      .ok [("(", place)] :=
    fun _ => rfl
  obtain ⟨k, spot₁, hk, hscan⟩ := scanFrom_cut (g := "") (w := ⟨.comment, commented body, []⟩)
    (by decide) (toList_commented body) (by decide) hcut hstack spot
  obtain ⟨c, spot₂, hc, hend⟩ := scanFrom_word (g := "") (by decide) (stands_closer .round) []
    (by simp) (nextOpen_closer .round [] place) spot₁
  refine ⟨k, c, hk, hc, ?_⟩
  have hend : scanFrom [("(", place)] [] spot₁ [')'] = .ok [c] := by
    refine hend.trans ?_
    rw [scanFrom_nil]
    rfl
  have hscan : scanFrom [("(", place)] [] spot
      ('/' :: '*' :: (body.toList ++ [' ', '*', '/', ')'])) =
      (scanFrom [("(", place)] [] spot₁ [')']).map (k :: ·) := by
    simpa [toList_commented] using hscan
  rw [hscan, hend]
  rfl

/-- The comment stays with the closing bracket. -/
theorem read_commentedCall {callee body : String} (h : isName callee = true)
    (hopen : ¬ ['/', '*'] <:+: body.toList) (hclose : ¬ ['*', '/'] <:+: body.toList) :
    ∃ s n o c, Source.read (commentedCall callee body) = .ok s ∧
      s.trees = [.leaf n, .group o [] c] ∧
      n.IsWord (.name callee) ∧ o.IsWord (.mark Bracket.round.opener) ∧
      c.comments.map (·.text) = [commented body] := by
  obtain ⟨n, o, hn, ho, hhead⟩ := scan_head h ('/' :: '*' :: (body.toList ++ [' ', '*', '/', ')']))
  obtain ⟨k, c, hk, hc, hbody⟩ := scan_commented hopen hclose o.place
    ((Spot.advance {} callee.toList).advance ['('])
  rw [hbody, ← toList_commentedCall] at hhead
  have hkinds : n.kind = .ident ∧ o.kind = .punct ∧ k.kind = .comment ∧ c.kind = .punct :=
    ⟨congrArg (·.2.kind) hn, congrArg (·.2.kind) ho, congrArg (·.2.kind) hk, congrArg (·.2.kind) hc⟩
  have hopens : o.text = "(" := congrArg (·.2.text) ho
  have hcloses : c.text = ")" := congrArg (·.2.text) hc
  have hattach : TokenTree.attach 0 [] [n, o, k, c] =
      ([⟨n, 0, []⟩, ⟨o, 1, []⟩, ⟨c, 2, [k]⟩], []) := by
    simp [TokenTree.attach, hkinds]
  have htrees : TokenTree.ofTokens [⟨n, 0, []⟩, ⟨o, 1, []⟩, ⟨c, 2, [k]⟩] =
      [.leaf ⟨n, 0, []⟩, .group ⟨o, 1, []⟩ [] ⟨c, 2, [k]⟩] := by
    simp [TokenTree.ofTokens, TokenTree.Levels.push, TokenTree.Levels.close, hkinds,
      hopens, hcloses, Token.text, closerOf, openerOf]
  have hread : Source.read (commentedCall callee body) =
      .ok ⟨[⟨n, 0, []⟩, ⟨o, 1, []⟩, ⟨c, 2, [k]⟩],
        [.leaf ⟨n, 0, []⟩, .group ⟨o, 1, []⟩ [] ⟨c, 2, [k]⟩], []⟩ := by
    simp only [Source.read, Lexeme.scan, hhead, Except.map, bind, Except.bind, pure, Except.pure,
      List.cons_append, List.nil_append, hattach, htrees]
  have hcomment : k.text = commented body := congrArg (·.2.text) hk
  exact ⟨_, _, _, _, hread, rfl, ⟨"", is_of_spoken hn rfl⟩, ⟨"", is_of_spoken ho rfl⟩,
    congrArg (fun text => [text]) hcomment⟩

/-- The call has no arguments, and the comment leads them. -/
theorem expr_commented {callee : String} (h : isCallable callee = true) {n o c : Token}
    (hn : n.IsWord (.name callee)) (ho : o.IsWord (.mark Bracket.round.opener))
    {comments : List String} (hc : c.comments.map (·.text) = comments) :
    Range.expr ⟨[.leaf n, .group o [] c], none⟩ =
      .ok (.call ⟨[.leaf n, .group o [] c], none⟩ callee "" [] comments) := by
  obtain ⟨hname, hconst⟩ := isCallable_iff.1 h
  have htokens : literalTokens? [.leaf n, .group o [] c] = none := by
    simp [literalTokens?, hn.kind_eq, Word.name]
  have hround : o.isPunct "(" = true := ho.isPunct_eq "("
  rw [Range.expr, exprOf_succ (List.cons_ne_nil _ _)
    (Or.inl (dropConst_leaf (hn.not_const fun _ => hconst) _)), htokens]
  simp only [atom?, shapeOf_call hn hname hround, TokenTree.sizeOf', TokenTree.size, shapeExpr,
    Range.splitTop, Range.splitFrom, List.isEmpty_nil, if_true, argsOf, bind, Except.bind, pure,
    Except.pure, ← hc]
  rfl

/-- A call whose comment opens another is refused where its own comment starts. -/
theorem read_unterminated {callee body : String} (h : isName callee = true)
    (hopen : ['/', '*'] <:+: body.toList) (hclose : ¬ ['*', '/'] <:+: body.toList) :
    Source.read (commentedCall callee body) =
      .error (.malformed "unterminated block comment" ⟨1, callee.length + 2⟩) := by
  obtain ⟨n, o, -, -, hhead⟩ := scan_head h ('/' :: '*' :: (body.toList ++ [' ', '*', '/', ')']))
  have hend : ¬ ['*', '/'] <:+: [')'] := by simp [List.infix_cons_iff]
  have hcut := cutLexeme_unterminated hopen hclose hend
  have hplace : ((Spot.advance {} callee.toList).advance ['(']).place = ⟨1, callee.length + 2⟩ := by
    rw [Spot.place_advance (by decide), Spot.place_advance (newline_not_mem_of_isName h)]
    simp [Nat.add_comm 1, Nat.add_assoc, String.length_toList]
  have hfail : scanFrom [("(", o.place)] [] ((Spot.advance {} callee.toList).advance ['('])
      ('/' :: '*' :: (body.toList ++ [' ', '*', '/', ')'])) =
        .error (.malformed "unterminated block comment" ⟨1, callee.length + 2⟩) := by
    rw [scanFrom_of_fault _ _ _ (by decide) hcut, List.take_zero, ← hplace]
    rfl
  rw [hfail, ← toList_commentedCall] at hhead
  simp only [Source.read, Lexeme.scan, hhead, Except.map, bind, Except.bind]

end WidgetBridge.WidgetGrammar
