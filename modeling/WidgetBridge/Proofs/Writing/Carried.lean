import WidgetBridge.Conversion
import WidgetBridge.Proofs.Text.Layout

/-!
# Source of the other framework

Source that has no form in a framework is carried there as comments.  `unconverted` leaves no line
of code (`isInert_of_mem_lines_unconverted`).  But `carried` looks at the start of a piece of source
only, and a piece that starts with a comment may go on with code: `carried_isInert_iff` says when
all lines of what it gives are inert, and `documented` is a source with a declaration under a
comment, which arrives in the other framework as code.
-/

namespace WidgetBridge.Writing

open WidgetBridge.Text

/-- Whether a line holds no code: it is blank, or a comment. -/
def isInert (l : String) : Bool := l.toList.all isBlank || hasHead (trimStart l) "//"

/-- A line of source as a comment. -/
def commentLine (l : String) : String := trimEnd ("// " ++ State.unconvertedMark ++ " " ++ l)

theorem toList_commentLine (l : String) : (commentLine l).toList =
    "// Unconverted:".toList ++ dropEndWhile isBlank (' ' :: l.toList) := by
  have h : ("// " ++ State.unconvertedMark ++ " " ++ l).toList =
      "// Unconverted".toList ++ ':' :: (' ' :: l.toList) := by
    simp [State.unconvertedMark]
  rw [commentLine, trimEnd, String.toList_ofList, h, dropEndWhile_append_cons (by decide)]
  rfl

theorem isInert_commentLine (l : String) : isInert (commentLine l) = true := by
  have hhead : hasHead (trimStart (commentLine l)) "//" = true := by
    simp only [hasHead, trimStart, String.toList_ofList, toList_commentLine]
    rfl
  rw [isInert, hhead, Bool.or_true]

theorem newline_not_mem_commentLine {l : String} (h : '\n' ∉ l.toList) :
    '\n' ∉ (commentLine l).toList := by
  rw [toList_commentLine, List.mem_append, not_or]
  refine ⟨by decide, fun hmem => ?_⟩
  simpa [h] using mem_of_mem_dropEndWhile hmem

/-- Unconverted source has the lines of the source, each as a comment. -/
theorem lines_unconverted (source : String) :
    lines (unconverted source) = (lines source).map commentLine := by
  refine lines_join (by simpa using lines_ne_nil source) fun l hl => ?_
  obtain ⟨m, hm, rfl⟩ := List.mem_map.1 hl
  exact newline_not_mem_commentLine (newline_not_mem_of_mem_lines hm)

theorem isInert_of_mem_lines_unconverted {source l : String} (h : l ∈ lines (unconverted source)) :
    isInert l = true := by
  rw [lines_unconverted] at h
  obtain ⟨m, -, rfl⟩ := List.mem_map.1 h
  exact isInert_commentLine m

/-- Pieces of source of the other framework arrive without code if those that start with a comment
hold no code, and only then. -/
theorem carried_isInert_iff (sources : List String) :
    (∀ piece ∈ sources.map (carried false), ∀ l ∈ lines piece, isInert l = true) ↔
      ∀ source ∈ sources, hasHead (trimStart source) "//" = true →
        ∀ l ∈ lines source, isInert l = true := by
  rw [List.forall_mem_map]
  refine forall₂_congr fun source _ => ?_
  cases h : hasHead (trimStart source) "//" with
  | true => simp [carried, h]
  | false => simpa [carried, h] using fun l => isInert_of_mem_lines_unconverted

/-- A source with a declaration under a comment. -/
def documented : String :=
  "// The most.\nfinal int limit = 3;\n\nclass Box extends StatelessWidget \x7b\n" ++
  "  Widget build(BuildContext context) => Container();\n\x7d\n"

/-- The comment makes one piece with the declaration, and the declaration arrives as code. -/
theorem carried_documented :
    ((readSource {} .widget documented "box.dart").toOption.bind (·.value)).map (·.declarations) =
        some ["// The most.\nfinal int limit = 3;"] ∧
      ¬(∀ piece ∈ ["// The most.\nfinal int limit = 3;"].map (carried false),
        ∀ l ∈ lines piece, isInert l = true) ∧
      ((convertBetween {} .widget .component documented "box.dart").toOption.bind (·.value)).map
        (fun text => (lines text).contains "final int limit = 3;") = some true := by
  decide +kernel

end WidgetBridge.Writing
