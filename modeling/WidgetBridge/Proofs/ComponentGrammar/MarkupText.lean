import Mathlib.Data.List.DropRight
import Mathlib.Data.List.Forall2
import WidgetBridge.ComponentGrammar.MarkupText
import WidgetBridge.Proofs.Text.Pattern

/-!
# Blanks in running text

The rule for blanks in a text between tags speaks of lines: `Broken cs ls` says that `ls` are the
lines of `cs`, and `lineText ls` is the text that the rule makes of them, before references are
replaced. `markupText` marks the last line that holds more than blanks and writes a space after
every other line that is left.  On several lines this is the same, since a line that meets a line
break is only left if it holds more than blanks (`joinLines_eq`).  A text on one line may be left
with blanks alone, and gets a space too many: `markupText_eq_iff` says that this is the only case in
which the rule is missed, and `markupText_space` is a text of that kind.
-/

namespace WidgetBridge.ComponentGrammar

open WidgetBridge.Text

/-! ## Lines -/

/-- Whether a character ends a line. -/
def isLineBreak (c : Char) : Bool := c == '\r' || c == '\n'

/-- The lines of a text: each but the last one is followed by a line feed, a carriage return, or
both in that order, which are one line break. -/
inductive Broken : List Char → List (List Char) → Prop
  | last {line : List Char} (hline : ∀ c ∈ line, isLineBreak c = false) : Broken line [line]
  | pair {line rest : List Char} {ls : List (List Char)} (hline : ∀ c ∈ line, isLineBreak c = false)
      (h : Broken rest ls) : Broken (line ++ '\r' :: '\n' :: rest) (line :: ls)
  | feed {line rest : List Char} {ls : List (List Char)} (hline : ∀ c ∈ line, isLineBreak c = false)
      (h : Broken rest ls) : Broken (line ++ '\n' :: rest) (line :: ls)
  | carriage {line rest : List Char} {ls : List (List Char)}
      (hline : ∀ c ∈ line, isLineBreak c = false)
      (hrest : rest.head? ≠ some '\n') (h : Broken rest ls) :
      Broken (line ++ '\r' :: rest) (line :: ls)

theorem Broken.cons {c : Char} (hc : isLineBreak c = false) {cs : List Char} {line : List Char}
    {ls : List (List Char)} (h : Broken cs (line :: ls)) :
    Broken (c :: cs) ((c :: line) :: ls) := by
  have hcons : ∀ {ds : List Char}, (∀ d ∈ ds, isLineBreak d = false) →
      ∀ d ∈ c :: ds, isLineBreak d = false := fun hds => List.forall_mem_cons.2 ⟨hc, hds⟩
  cases h with
  | last hline => exact .last (hcons hline)
  | pair hline h => exact .pair (hcons hline) h
  | feed hline h => exact .feed (hcons hline) h
  | carriage hline hrest h => exact .carriage (hcons hline) hrest h

theorem splitLines_cons {c : Char} (hc : isLineBreak c = false) {cs line : List Char}
    {ls : List (List Char)} (h : splitLines cs = line :: ls) :
    splitLines (c :: cs) = (c :: line) :: ls := by
  have hr : c ≠ '\r' := by rintro rfl; cases hc
  have hn : c ≠ '\n' := by rintro rfl; cases hc
  rw [splitLines.eq_5 c cs (fun _ h => absurd h hr) hr hn, h]

theorem splitLines_append {line cs : List Char} (hline : ∀ c ∈ line, isLineBreak c = false)
    {ls : List (List Char)} (h : splitLines cs = [] :: ls) :
    splitLines (line ++ cs) = line :: ls := by
  induction line with
  | nil => exact h
  | cons c line ih =>
    rw [List.forall_mem_cons] at hline
    exact splitLines_cons hline.1 (ih hline.2)

theorem splitLines_ne_nil (cs : List Char) : splitLines cs ≠ [] := by
  fun_induction splitLines cs <;> simp

theorem broken_splitLines (cs : List Char) : Broken cs (splitLines cs) := by
  have hempty : ∀ c ∈ ([] : List Char), isLineBreak c = false := List.forall_mem_nil _
  fun_induction splitLines cs with
  | case1 => exact .last hempty
  | case2 cs ih => exact .pair hempty ih
  | case3 cs hne ih =>
    refine .carriage hempty ?_ ih
    cases cs with
    | nil => simp
    | cons d ds => simpa using fun h : d = '\n' => hne ds (by rw [h])
  | case4 cs ih => exact .feed hempty ih
  | case5 c cs _ hr hn line rest heq ih =>
    rw [heq] at ih
    exact ih.cons (by simpa [isLineBreak] using ⟨hr, hn⟩)
  | case6 c cs _ _ _ heq => exact absurd heq (splitLines_ne_nil cs)

/-- A text has its lines in one way. -/
theorem broken_iff {cs : List Char} {ls : List (List Char)} :
    Broken cs ls ↔ ls = splitLines cs := by
  constructor
  · intro h
    induction h with
    | @last line hline =>
      have := splitLines_append hline (rfl : splitLines [] = [[]])
      rw [List.append_nil] at this
      exact this.symm
    | pair hline _ ih => rw [splitLines_append hline rfl, ih]
    | feed hline _ ih => rw [splitLines_append hline rfl, ih]
    | @carriage line rest ls hline hrest _ ih =>
      rw [ih]
      refine (splitLines_append hline ?_).symm
      cases rest with
      | nil => rfl
      | cons d ds => exact splitLines.eq_3 (d :: ds) fun e he => hrest (by rw [he]; rfl)
  · rintro rfl
    exact broken_splitLines cs

/-! ## The rule -/

/-- A line of several as it is left: tabs are spaces, and there are no spaces next to a line
break. -/
def leftLine (count index : Nat) (line : List Char) : List Char :=
  let spaced := line.map fun c => if c == '\t' then ' ' else c
  let started := if index == 0 then spaced else spaced.dropWhile (· == ' ')
  if index + 1 == count then started else started.rdropWhile (· == ' ')

/-- The lines that are left, without the empty ones. -/
def leftLines (ls : List (List Char)) : List (List Char) :=
  (ls.mapIdx (leftLine ls.length)).filter fun l => !l.isEmpty

/-- The lines that are left, with single spaces between them. -/
def lineText (ls : List (List Char)) : String := join " " ((leftLines ls).map String.ofList)

theorem trimLine_eq_leftLine (count index : Nat) (line : List Char) :
    trimLine (index == 0) (index + 1 == count) line = leftLine count index line := rfl

theorem trimLines_eq_mapIdx (ls : List (List Char)) :
    trimLines true ls = ls.mapIdx (leftLine ls.length) := by
  have key : ∀ (ls : List (List Char)) (index count : Nat), count = index + ls.length →
      trimLines (index == 0) ls = ls.mapIdx fun i => leftLine count (index + i) := by
    intro ls
    induction ls with
    | nil => intro _ _ _; rfl
    | cons line ls ih =>
      intro index count hcount
      rw [List.length_cons] at hcount
      cases ls with
      | nil =>
        have hlast : (index + 1 == count) = true := beq_iff_eq.2 hcount.symm
        show [trimLine (index == 0) true line] = [leftLine count index line]
        rw [← trimLine_eq_leftLine, hlast]
      | cons line' ls =>
        rw [List.length_cons] at hcount
        have hlast : (index + 1 == count) = false := by
          rw [beq_eq_false_iff_ne]
          omega
        have hrest := ih (index + 1) count (by rw [List.length_cons]; omega)
        have hshift : (fun i => leftLine count (index + (i + 1))) =
            fun i => leftLine count (index + 1 + i) := by
          funext i
          congr 1
          omega
        have hfirst := trimLine_eq_leftLine count index line
        rw [hlast] at hfirst
        rw [trimLines, hfirst, List.mapIdx_cons, hshift, ← hrest]
        · rfl
        · nofun
  simpa using key ls 0 ls.length (Nat.zero_add _).symm

/-! ## Lines with more than blanks -/

theorem isInked_eq_false_iff {line : List Char} :
    isInked line = false ↔ ∀ c ∈ line, c = ' ' ∨ c = '\t' := by
  simp only [isInked, List.any_eq_false, Bool.and_eq_true, bne_iff_ne, ne_eq]
  refine forall₂_congr fun c _ => ?_
  tauto

/-- A line that meets a line break is left only if it holds more than blanks. -/
theorem trimLine_eq_nil_iff {isFirst isLast : Bool} (h : isFirst = false ∨ isLast = false)
    (line : List Char) : trimLine isFirst isLast line = [] ↔ isInked line = false := by
  have hspaced : (∀ c ∈ line.map fun c => if c == '\t' then ' ' else c, (c == ' ') = true) ↔
      isInked line = false := by
    rw [isInked_eq_false_iff, List.forall_mem_map]
    refine forall₂_congr fun c _ => ?_
    by_cases hc : c = '\t' <;> simp [hc]
  have hdropped : ∀ cs : List Char, (∀ c ∈ cs.dropWhile (· == ' '), (c == ' ') = true) ↔
      ∀ c ∈ cs, (c == ' ') = true := by
    intro cs
    rw [← List.dropWhile_eq_nil_iff, List.dropWhile_idempotent, List.dropWhile_eq_nil_iff]
  rw [← hspaced, trimLine]
  cases isFirst <;> cases isLast
  · rw [if_neg Bool.false_ne_true, if_neg Bool.false_ne_true]
    exact List.rdropWhile_eq_nil_iff.trans (hdropped _)
  · rw [if_neg Bool.false_ne_true, if_pos rfl, List.dropWhile_eq_nil_iff]
  · rw [if_pos rfl, if_neg Bool.false_ne_true]
    exact List.rdropWhile_eq_nil_iff
  · simp at h

/-- Lines as they are left next to the lines that they come from: empty where there are only
blanks. -/
abbrev Settled (ts ls : List (List Char)) : Prop :=
  List.Forall₂ (fun t l => t = [] ↔ isInked l = false) ts ls

theorem settled_trimLines_false (ls : List (List Char)) : Settled (trimLines false ls) ls := by
  induction ls with
  | nil => exact .nil
  | cons line ls ih =>
    cases ls with
    | nil => exact .cons (trimLine_eq_nil_iff (.inl rfl) line) .nil
    | cons line' ls => exact .cons (trimLine_eq_nil_iff (.inl rfl) line) ih

theorem settled_trimLines_true (line line' : List Char) (ls : List (List Char)) :
    Settled (trimLines true (line :: line' :: ls)) (line :: line' :: ls) :=
  .cons (trimLine_eq_nil_iff (.inr rfl) line) (settled_trimLines_false (line' :: ls))

theorem filter_eq_nil_iff_of_settled {ts ls : List (List Char)} (h : Settled ts ls) :
    (ts.filter fun t => !t.isEmpty) = [] ↔ ls.any isInked = false := by
  induction h with
  | nil => simp
  | @cons t l ts ls ht _ ih =>
    rw [List.any_cons, Bool.or_eq_false_iff, ← ih, ← ht]
    cases t <;> simp

/-- Lines that are left only where they hold more than blanks get spaces between them. -/
theorem joinLines_eq {ts ls : List (List Char)} (h : Settled ts ls) :
    String.ofList (joinLines (ts.zip (markLast ls))) =
      join " " ((ts.filter fun t => !t.isEmpty).map String.ofList) := by
  induction h with
  | nil => rfl
  | @cons t l ts ls ht hrest ih =>
    rw [markLast, List.zip_cons_cons]
    cases t with
    | nil => exact ih
    | cons c cs =>
      have hink : isInked l = true := by simpa using ht
      rw [joinLines, List.filter_cons_of_pos rfl, List.map_cons, String.ofList_append,
        String.ofList_append, ih, hink, Bool.true_and]
      · cases hany : ls.any isInked with
        | false =>
          rw [(filter_eq_nil_iff_of_settled hrest).2 hany]
          simp [join]
        | true =>
          obtain ⟨u, us, hu⟩ : ∃ u us, (ts.filter fun t => !t.isEmpty) = u :: us :=
            List.exists_cons_of_ne_nil fun hnil => by
              simp [(filter_eq_nil_iff_of_settled hrest).1 hnil] at hany
          rw [hu, List.map_cons, join_cons_cons]
          rfl
      · intro hnil
        cases hnil

/-! ## References -/

/-- A text without the mark of references holds none. -/
theorem unescape_of_not_mem {s : String} (h : '&' ∉ s.toList) : Entity.unescape s = s := by
  have hpass : Pattern.Passes Entity.reference s.toList := by
    refine Pattern.passes_of_forall fun c hc rest => ?_
    unfold Entity.reference
    refine (Pattern.refuses_lit ?_).seq _
    have hne : c ≠ '&' := by rintro rfl; exact h hc
    simpa [differ] using hne.symm
  have hend : Pattern.Refuses Entity.reference [] := by
    unfold Entity.reference
    exact (Pattern.refuses_nil_lit (by decide)).seq _
  rw [Entity.unescape, Pattern.replaceAll, Pattern.findAll, Pattern.allFrom_eq_nil hpass hend,
    Pattern.replaceAll.go, String.ofList_toList]

/-! ## Running text -/

/-- A text of blanks alone, on one line. -/
def IsBlankRun (raw : String) : Prop := raw ≠ "" ∧ ∀ c ∈ raw.toList, c = ' ' ∨ c = '\t'

theorem splitLines_of_unbroken {cs : List Char} (h : ∀ c ∈ cs, isLineBreak c = false) :
    splitLines cs = [cs] :=
  (broken_iff.1 (.last h)).symm

theorem lineText_singleton (line : List Char) :
    lineText [line] = String.ofList (line.map fun c => if c == '\t' then ' ' else c) := by
  have hleft : leftLine 1 0 line = line.map fun c => if c == '\t' then ' ' else c := rfl
  rw [lineText, leftLines, List.mapIdx_singleton, List.length_singleton, hleft]
  cases line <;> rfl

/-- On several lines the rule is kept. -/
theorem markupText_of_lines {raw : String} {line line' : List Char} {ls : List (List Char)}
    (h : splitLines raw.toList = line :: line' :: ls) :
    markupText raw = Entity.unescape (lineText (line :: line' :: ls)) := by
  rw [markupText, h, joinLines_eq (settled_trimLines_true line line' ls), trimLines_eq_mapIdx]
  rfl

/-- On one line there is a space after blanks alone. -/
theorem markupText_of_line {raw : String} {line : List Char} (h : splitLines raw.toList = [line]) :
    markupText raw = Entity.unescape
      (lineText [line] ++ if line.isEmpty || isInked line then "" else " ") := by
  rw [markupText, h, lineText_singleton]
  cases line with
  | nil => rfl
  | cons c cs =>
    have hjoin : joinLines ((trimLines true [c :: cs]).zip (markLast [c :: cs])) =
        ((c :: cs).map fun c => if c == '\t' then ' ' else c) ++
          if isInked (c :: cs) then [] else [' '] := by
      simp [trimLines, trimLine, markLast, joinLines]
    rw [hjoin, String.ofList_append]
    cases isInked (c :: cs) <;> rfl

theorem eq_of_splitLines {cs line : List Char} (h : splitLines cs = [line]) : line = cs := by
  have hbroken := broken_splitLines cs
  rw [h] at hbroken
  have hne : ∀ {ds : List Char}, ¬Broken ds [] := fun hds =>
    splitLines_ne_nil _ (broken_iff.1 hds).symm
  cases hbroken with
  | last _ => rfl
  | pair _ hrest => exact absurd hrest hne
  | feed _ hrest => exact absurd hrest hne
  | carriage _ _ hrest => exact absurd hrest hne

theorem splitLines_of_isBlankRun {raw : String} (h : IsBlankRun raw) :
    splitLines raw.toList = [raw.toList] := by
  refine splitLines_of_unbroken fun c hc => ?_
  rcases h.2 c hc with rfl | rfl <;> rfl

/-- Blanks alone hold no reference. -/
theorem unescape_lineText_of_isBlankRun {raw : String} (h : IsBlankRun raw) (t : String)
    (ht : '&' ∉ t.toList) :
    Entity.unescape (lineText [raw.toList] ++ t) = lineText [raw.toList] ++ t := by
  refine unescape_of_not_mem ?_
  rw [String.toList_append, List.mem_append, not_or, lineText_singleton, String.toList_ofList]
  refine ⟨?_, ht⟩
  rw [List.mem_map]
  rintro ⟨c, hc, hamp⟩
  rcases h.2 c hc with rfl | rfl <;> cases hamp

/-- Blanks alone get a space too many. -/
theorem markupText_of_isBlankRun {raw : String} (h : IsBlankRun raw) :
    markupText raw = lineText [raw.toList] ++ " " := by
  have hempty : raw.toList.isEmpty = false := by simpa using h.1
  have hink : isInked raw.toList = false := isInked_eq_false_iff.2 h.2
  rw [markupText_of_line (splitLines_of_isBlankRun h), hempty, hink]
  exact unescape_lineText_of_isBlankRun h " " (by decide)

theorem markupText_of_not_isBlankRun {raw : String} (h : ¬IsBlankRun raw) :
    markupText raw = Entity.unescape (lineText (splitLines raw.toList)) := by
  match hls : splitLines raw.toList with
  | [] => exact absurd hls (splitLines_ne_nil _)
  | line :: line' :: ls => exact markupText_of_lines hls
  | [line] =>
    have hline := eq_of_splitLines hls
    have hleft : (line.isEmpty || isInked line) = true := by
      by_contra hne
      rw [Bool.not_eq_true, Bool.or_eq_false_iff, hline] at hne
      exact h ⟨by simpa using hne.1, isInked_eq_false_iff.1 hne.2⟩
    rw [markupText_of_line hls, hleft, if_pos rfl, String.append_empty]

/-- On one line without tabs there is nothing to trim. -/
theorem lineText_of_plain {raw : String} (h : ∀ c ∈ raw.toList, isLineBreak c = false ∧ c ≠ '\t') :
    lineText (splitLines raw.toList) = raw := by
  have hid : raw.toList.map (fun c => if c == '\t' then ' ' else c) = raw.toList := by
    refine (List.map_congr_left fun c hc => ?_).trans (List.map_id _)
    exact if_neg (by simpa using (h c hc).2)
  rw [splitLines_of_unbroken fun c hc => (h c hc).1, lineText_singleton, hid, String.ofList_toList]

/-- The text of a run follows the rule if and only if the run is not a line of blanks alone, which
gets a space too many.  So a run without line breaks, tabs and references stays as it is, again with
that one exception. -/
theorem markupText_eq_iff (raw : String) : ∃ ls, (∀ ls', Broken raw.toList ls' ↔ ls' = ls) ∧
    (markupText raw = Entity.unescape (lineText ls) ↔ ¬IsBlankRun raw) ∧
    (IsBlankRun raw → markupText raw = lineText ls ++ " ") ∧
    ((∀ c ∈ raw.toList, isLineBreak c = false ∧ c ≠ '\t') → Entity.unescape raw = raw →
      (markupText raw = raw ↔ ¬IsBlankRun raw)) := by
  have hrule : markupText raw = Entity.unescape (lineText (splitLines raw.toList)) ↔
      ¬IsBlankRun raw := by
    refine ⟨fun heq hrun => ?_, markupText_of_not_isBlankRun⟩
    have hkept := unescape_lineText_of_isBlankRun hrun "" (by decide)
    rw [String.append_empty] at hkept
    rw [splitLines_of_isBlankRun hrun, markupText_of_isBlankRun hrun, hkept] at heq
    simpa using congrArg String.length heq
  refine ⟨splitLines raw.toList, fun _ => broken_iff, hrule, fun hrun => ?_, fun hplain href => ?_⟩
  · rw [splitLines_of_isBlankRun hrun, markupText_of_isBlankRun hrun]
  · rwa [lineText_of_plain hplain, href] at hrule

/-- The space between two values in a text is doubled, which the rule does not ask for. -/
theorem markupText_space : Broken [' '] [[' ']] ∧ Entity.unescape (lineText [[' ']]) = " " ∧
    markupText " " = "  " := by
  refine ⟨.last (List.forall_mem_singleton.2 (by decide)), ?_, ?_⟩ <;> decide +kernel

end WidgetBridge.ComponentGrammar
