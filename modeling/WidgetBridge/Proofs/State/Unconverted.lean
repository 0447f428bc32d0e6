import WidgetBridge.Proofs.Text.Indent
import WidgetBridge.State.Expansion

/-!
# Mutations without a widget form

A mutation that assigns nothing to its state is written as a comment, in a function of its own.  The
comment mark stands on the first line only: further lines of the mutation arrive as they are, so
that all lines of the function are comments just where these are (`expand_unassigned`).  An action
over several lines leaves lines of code in the function (`not_commented_pushing`).
-/

namespace WidgetBridge.State

open WidgetBridge.Text

/-- Whether a line is a comment. -/
def isCommentLine (l : String) : Bool := hasHead (trimStart l) "//"

/-- A piece of source that holds a function without parameters, whose block has the given lines. -/
def HoldsBlock (piece trigger : String) (block : List String) : Prop :=
  ∃ indent before after, lines piece =
    before ++
      (lines (spaces indent ++ "void " ++ trigger ++ "() \x7b") ++ block ++
      [spaces indent ++ "\x7d"]) ++
      after

/-- The pieces of a fragment that hold the functions of its transitions. -/
def Fragment.functions (f : Fragment) : Idiom → List String
  | .setState => f.members
  | .bloc => f.declarations
  | .riverpod => f.locals
  | _ => []

/-! ## Comment lines -/

theorem isCommentLine_append (indent : Nat) (s : String) :
    isCommentLine (spaces indent ++ "//" ++ s) = true := by
  have hblank : ∀ c ∈ (spaces indent).toList, isBlank c = true := fun c hc => by
    rw [eq_space_of_mem_spaces hc]
    rfl
  have htrim : (trimStart (spaces indent ++ "//" ++ s)).toList = "//".toList ++ s.toList := by
    simp only [trimStart, trimStartChars, String.toList_ofList, String.toList_append,
      List.append_assoc]
    rw [List.dropWhile_append_of_pos hblank]
    rfl
  rw [isCommentLine, hasHead, htrim, dropHead?_append]
  rfl

/-- A mutation after the comment mark. -/
def unconvertedComment (indent : Nat) (mutation : String) : String :=
  spaces indent ++ "// " ++ unconvertedMark ++ " " ++ mutation

/-- The lines of a mutation after the comment mark are comments if all but the first one are. -/
theorem forall_isCommentLine_unconvertedComment (indent : Nat) (mutation : String) :
    (∀ l ∈ lines (unconvertedComment indent mutation), isCommentLine l = true) ↔
      ∀ l ∈ (lines mutation).tail, isCommentLine l = true := by
  have hmark : '\n' ∉ (spaces indent ++ "// " ++ unconvertedMark ++ " ").toList := by
    simpa [unconvertedMark] using fun h => absurd (eq_space_of_mem_spaces h) (by decide)
  obtain ⟨first, hfirst⟩ := lines_append_of_not_mem hmark mutation
  have hsplit : spaces indent ++ "// " ++ unconvertedMark ++ " " ++ first =
      spaces indent ++ "//" ++ (" " ++ unconvertedMark ++ " " ++ first) := by
    rw [← String.toList_inj]
    simp
  rw [unconvertedComment, hfirst, List.forall_mem_cons, hsplit, isCommentLine_append]
  simp

/-! ## Fragments -/

theorem assignedTo?_eq_none {name mutation : String}
    (h : ∀ n value, splitAssignment mutation = some (n, value) → n ≠ name) :
    assignedTo? name mutation = none := by
  unfold assignedTo?
  split
  · next n value heq => exact if_neg (by simpa using h n value heq)
  · rfl

/-- A text of several pieces holds the functions that stand among them. -/
theorem holdsBlock_of_infix (indent : Nat) {trigger text : String} {ss : List String}
    (h : [spaces indent ++ "void " ++ trigger ++ "() \x7b", text, spaces indent ++ "\x7d"] <:+:
      ss) :
    HoldsBlock (join "\n" ss) trigger (lines text) := by
  have hclose : lines (spaces indent ++ "\x7d") = [spaces indent ++ "\x7d"] := by
    refine lines_eq_singleton ?_
    simpa using fun h => absurd (eq_space_of_mem_spaces h) (by decide)
  obtain ⟨before, after, rfl⟩ := h
  refine ⟨indent, before.flatMap lines, after.flatMap lines, ?_⟩
  rw [lines_join_flatMap (by simp)]
  simp [hclose]

section Unassigned

variable {b : Binding} {t : Transition} (ht : t ∈ b.transitions)
    (hmutation : assignedTo? b.name t.mutation = none)

include ht hmutation

theorem exists_block_setState : ∃ piece ∈ (toSetState b).members,
    HoldsBlock piece t.trigger (lines (unconvertedComment 2 t.mutation)) := by
  have hmember : methodText ("void " ++ t.trigger ++ "()")
      ["// " ++ unconvertedMark ++ " " ++ t.mutation] ∈
      (toSetState b).members := by
    refine List.mem_cons_of_mem _ (List.mem_cons_of_mem _ (List.mem_map.2 ⟨t, ht, ?_⟩))
    rw [hmutation]
    rfl
  have hlines : methodText ("void " ++ t.trigger ++ "()")
      ["// " ++ unconvertedMark ++ " " ++ t.mutation] =
      join "\n" [spaces 0 ++ "void " ++ t.trigger ++ "() \x7b", unconvertedComment 2 t.mutation,
        spaces 0 ++ "\x7d"] := by
    rw [← String.toList_inj]
    simp [methodText, unconvertedComment, join, spaces]
  refine ⟨_, hmember, ?_⟩
  rw [hlines]
  exact holdsBlock_of_infix 0 List.infix_rfl

theorem exists_block_bloc : ∃ piece ∈ (toBloc b).declarations,
    HoldsBlock piece t.trigger (lines (unconvertedComment 4 t.mutation)) := by
  have hmethod : [spaces 2 ++ "void " ++ t.trigger ++ "() \x7b", unconvertedComment 4 t.mutation,
        spaces 2 ++ "\x7d"] =
      ["  void " ++ t.trigger ++ "() \x7b", "    // " ++ unconvertedMark ++ " " ++ t.mutation,
      "  \x7d"] := rfl
  obtain ⟨as, bs, hts⟩ := List.append_of_mem ht
  refine ⟨_, List.mem_singleton_self _, holdsBlock_of_infix 2 ?_⟩
  rw [hmethod, hts, List.flatMap_append, List.flatMap_cons, hmutation]
  refine List.IsInfix.trans (List.suffix_cons "" _).isInfix ?_
  -- the lines of the method stand between those of the other methods
  refine List.IsInfix.trans ?_ (List.prefix_append _ _).isInfix
  refine List.IsInfix.trans ?_ (List.suffix_append _ _).isInfix
  exact List.infix_append' _ _ _

theorem exists_block_riverpod : ∃ piece ∈ (toRiverpod b).locals,
    HoldsBlock piece t.trigger (lines (unconvertedComment 2 t.mutation)) := by
  have hlocal : "void " ++ t.trigger ++ "() \x7b\n  // " ++ unconvertedMark ++ " " ++
      t.mutation ++ "\n\x7d" ∈
      (toRiverpod b).locals := by
    refine List.mem_append_right _ (List.mem_map.2 ⟨t, ht, ?_⟩)
    rw [hmutation]
  have hlines : "void " ++ t.trigger ++ "() \x7b\n  // " ++ unconvertedMark ++ " " ++
      t.mutation ++ "\n\x7d" =
      join "\n" [spaces 0 ++ "void " ++ t.trigger ++ "() \x7b", unconvertedComment 2 t.mutation,
        spaces 0 ++ "\x7d"] := by
    rw [← String.toList_inj]
    simp [unconvertedComment, join, spaces]
  refine ⟨_, hlocal, ?_⟩
  rw [hlines]
  exact holdsBlock_of_infix 0 List.infix_rfl

end Unassigned

/-- A mutation that assigns nothing to its state is written in a function without parameters.  All
lines of its block are comments if all further lines of the mutation are, and only then. -/
theorem expand_unassigned (b : Binding) {t : Transition} (ht : t ∈ b.transitions)
    (hmutation : ∀ name value, splitAssignment t.mutation = some (name, value) → name ≠ b.name)
    {idiom : Idiom} (hidiom : idiom ∈ [Idiom.setState, .bloc, .riverpod]) :
    ∃ piece ∈ (expand b idiom).functions idiom, ∃ indent,
      HoldsBlock piece t.trigger (lines (unconvertedComment indent t.mutation)) ∧
      ((∀ l ∈ lines (unconvertedComment indent t.mutation), isCommentLine l = true) ↔
        ∀ l ∈ (lines t.mutation).tail, isCommentLine l = true) := by
  have hnone := assignedTo?_eq_none hmutation
  have hiff (indent : Nat) := forall_isCommentLine_unconvertedComment indent t.mutation
  simp only [List.mem_cons, List.not_mem_nil, or_false] at hidiom
  rcases hidiom with rfl | rfl | rfl
  · obtain ⟨piece, hpiece, hholds⟩ := exists_block_setState ht hnone
    exact ⟨piece, hpiece, 2, hholds, hiff 2⟩
  · obtain ⟨piece, hpiece, hholds⟩ := exists_block_bloc ht hnone
    exact ⟨piece, hpiece, 4, hholds, hiff 4⟩
  · obtain ⟨piece, hpiece, hholds⟩ := exists_block_riverpod ht hnone
    exact ⟨piece, hpiece, 2, hholds, hiff 2⟩

/-- An action over several lines. -/
def pushAction : String := "\x7b\n  type: 'add',\n\x7d"

/-- A state that is changed by this action. -/
def pushing : Binding :=
  { kind := .reducer, name := "todos", transitions := [⟨"push", pushAction⟩] }

theorem splitAssignment_pushAction : splitAssignment pushAction = none := by decide +kernel

/-- The action is written in each idiom, and leaves lines of code in its function. -/
theorem expand_unassigned_pushing :
    (⟨"push", pushAction⟩ ∈ pushing.transitions ∧
      ∀ name value, splitAssignment pushAction = some (name, value) → name ≠ pushing.name) ∧
    ∀ idiom ∈ [Idiom.setState, .bloc, .riverpod],
      ∃ piece ∈ (expand pushing idiom).functions idiom, ∃ indent,
        HoldsBlock piece "push" (lines (unconvertedComment indent pushAction)) ∧
        ¬ ∀ l ∈ lines (unconvertedComment indent pushAction), isCommentLine l = true := by
  have hmem : ⟨"push", pushAction⟩ ∈ pushing.transitions := List.mem_singleton_self _
  have hmutation : ∀ name value,
      splitAssignment pushAction = some (name, value) → name ≠ pushing.name := by
    intro name value h
    rw [splitAssignment_pushAction] at h
    cases h
  refine ⟨⟨hmem, hmutation⟩, fun idiom hidiom => ?_⟩
  obtain ⟨piece, hpiece, indent, hholds, hiff⟩ := expand_unassigned pushing hmem hmutation hidiom
  refine ⟨piece, hpiece, indent, hholds, fun hall => ?_⟩
  exact absurd (hiff.1 hall) (by decide +kernel)

/-- The lines of the members that are written for the state. -/
def pushingLines : List (List String) :=
  [["dynamic todos;"],
    ["void setTodos(value) \x7b", "  setState(() \x7b", "    todos = value;", "  \x7d);", "\x7d"],
    ["void push() \x7b", "  // Unconverted: \x7b", "  type: 'add',", "\x7d", "\x7d"]]

theorem lines_pushing : (toSetState pushing).members.map lines = pushingLines := by decide +kernel

/-- No function of the action has comments only. -/
theorem not_commented_pushing :
    splitAssignment pushAction = none ∧
    ¬ ∃ piece ∈ (expand pushing .setState).functions .setState, ∃ block,
      HoldsBlock piece "push" block ∧ ∀ l ∈ block, isCommentLine l = true := by
  refine ⟨splitAssignment_pushAction, ?_⟩
  rintro ⟨piece, hpiece, block, ⟨indent, before, after, hlines⟩, hall⟩
  have hmem : lines piece ∈ pushingLines := lines_pushing ▸ List.mem_map_of_mem hpiece
  have hsignature : lines (spaces indent ++ "void " ++ "push" ++ "() \x7b") =
      [spaces indent ++ "void " ++ "push" ++ "() \x7b"] := by
    refine lines_eq_singleton ?_
    simpa using fun h => absurd (eq_space_of_mem_spaces h) (by decide)
  have hletter : 'h' ∈ (spaces indent ++ "void " ++ "push" ++ "() \x7b").toList := by simp
  have hclose {c : Char} (h : c ∈ (spaces indent ++ "\x7d").toList) : c = ' ' ∨ c = '\x7d' := by
    rw [String.toList_append, List.mem_append] at h
    exact h.imp eq_space_of_mem_spaces fun h => by simpa using h
  -- the signature is told by a letter that no other line has
  have hother : ∀ ls ∈ pushingLines, (∀ l ∈ ls.tail, 'h' ∉ l.toList) ∧
      ((∀ l ∈ ls.head?, 'h' ∉ l.toList) ∨
        ls.tail = ["  // Unconverted: \x7b", "  type: 'add',", "\x7d", "\x7d"]) := by decide
  obtain ⟨htail, hhead⟩ := hother _ hmem
  rw [hlines, hsignature] at htail hhead
  cases before with
  | cons l before => exact htail _ (by simp) hletter
  | nil =>
    have hcode := hhead.resolve_left fun h => h _ rfl hletter
    rcases block with _ | ⟨l, _ | ⟨m, block⟩⟩
    · have hfirst := (List.cons.inj hcode).1
      exact absurd (hclose (c := '/') (by rw [hfirst]; decide)) (by decide)
    · have hsecond := (List.cons.inj (List.cons.inj hcode).2).1
      exact absurd (hclose (c := 't') (by rw [hsecond]; decide)) (by decide)
    · have hsecond : m = "  type: 'add'," := (List.cons.inj (List.cons.inj hcode).2).1
      have hcomment := hall m (by simp)
      rw [hsecond] at hcomment
      exact absurd hcomment (by decide)

end WidgetBridge.State
