import WidgetBridge.Proofs.Text.Layout
import WidgetBridge.Text.Indent

/-!
# Indentation and its undoing

Carried source is written with a lead in front of every line that is not empty, once for each level
at which it stands, and it is read again as a slice that starts behind the lead.  Levels of spaces
add up (`indentLines_indentLines`), and `dedent` takes off of every later line what the first one
had (`dedent_drop_indentLines`), so that a text comes back from any depth (`dedent_indentLines`).
-/

namespace WidgetBridge.Text

/-! ## Lines -/

theorem intercalate_splitChars (sep : Char) (cs : List Char) :
    [sep].intercalate (splitChars sep cs) = cs := by
  induction cs with
  | nil => rfl
  | cons c cs ih =>
    by_cases hc : c = sep
    · subst hc
      obtain ⟨part, parts, hp⟩ := List.exists_cons_of_ne_nil (splitChars_ne_nil c cs)
      rw [splitChars_cons_sep, hp, List.intercalate_cons_cons, ← hp, ih]
      rfl
    · obtain ⟨part, parts, hp, hcons⟩ := splitChars_cons_of_ne hc cs
      rw [hcons]
      rw [hp] at ih
      cases parts with
      | nil => simpa using ih
      | cons next parts =>
        rw [List.intercalate_cons_cons] at ih ⊢
        rw [← ih]
        rfl

/-- A text is its lines put together. -/
theorem join_lines (s : String) : join "\n" (lines s) = s := by
  apply String.toList_inj.1
  rw [toList_join, lines, splitAt, List.map_map]
  have hid : String.toList ∘ String.ofList = id := funext fun cs => String.toList_ofList
  rw [hid, List.map_id]
  exact intercalate_splitChars '\n' s.toList

theorem trimEnd_eq_self {s : String} (h : ∀ c ∈ s.toList.getLast?, isBlank c = false) :
    trimEnd s = s := by
  obtain hs | ⟨cs, c, hs⟩ := List.eq_nil_or_concat s.toList
  · rw [trimEnd, hs, dropEndWhile]
    exact (String.toList_eq_nil_iff.1 hs).symm
  · have hc : isBlank c = false := h c (by simp [hs])
    rw [List.concat_eq_append] at hs
    rw [trimEnd, hs, dropEndWhile_append_cons hc, ← String.toList_inj, String.toList_ofList, hs]
    rfl

/-! ## Levels -/

/-- A line with a lead, unless it is empty. -/
def leadLine (lead l : String) : String := if l.isEmpty then l else lead ++ l

theorem indentLines_eq (lead s : String) :
    indentLines lead s = join "\n" ((lines s).map (leadLine lead)) := rfl

theorem leadLine_leadLine (p q l : String) : leadLine q (leadLine p l) = leadLine (q ++ p) l := by
  unfold leadLine
  by_cases h : l.isEmpty = true
  · simp [h]
  · have hpl : ¬(p ++ l).isEmpty = true := by simp_all
    rw [if_neg h, if_neg h, if_neg hpl, String.append_assoc]

theorem newline_not_mem_leadLine {lead l : String} (hlead : '\n' ∉ lead.toList)
    (hl : '\n' ∉ l.toList) :
    '\n' ∉ (leadLine lead l).toList := by
  unfold leadLine
  split_ifs
  · exact hl
  · simp [hlead, hl]

theorem lines_indentLines {lead : String} (hlead : '\n' ∉ lead.toList) (s : String) :
    lines (indentLines lead s) = (lines s).map (leadLine lead) := by
  rw [indentLines_eq]
  apply lines_join
  · simpa using lines_ne_nil s
  · intro l hl
    obtain ⟨m, hm, rfl⟩ := List.mem_map.1 hl
    exact newline_not_mem_leadLine hlead (newline_not_mem_of_mem_lines hm)

/-- Two levels of indentation are one level of both leads. -/
theorem indentLines_indentLines {p : String} (hp : '\n' ∉ p.toList) (q s : String) :
    indentLines q (indentLines p s) = indentLines (q ++ p) s := by
  rw [indentLines_eq, lines_indentLines hp, List.map_map, indentLines_eq]
  congr 1
  exact List.map_congr_left fun l _ => leadLine_leadLine p q l

/-! ## Leads of spaces -/

section Spaces

variable {p q : String} (hp : ∀ c ∈ p.toList, c = ' ')

theorem eq_space_of_mem_spaces {n : Nat} {c : Char} (h : c ∈ (spaces n).toList) : c = ' ' := by
  rw [spaces, String.toList_ofList] at h
  exact List.eq_of_mem_replicate h

theorem length_spaces (n : Nat) : (spaces n).length = n := by
  rw [spaces, String.length_ofList, List.length_replicate]

include hp

theorem eq_spaces : p = spaces p.length := by
  apply String.toList_inj.1
  rw [spaces, String.toList_ofList, ← String.length_toList]
  exact List.eq_replicate_of_mem hp

theorem newline_not_mem_of_spaces : '\n' ∉ p.toList := by
  intro h
  exact absurd (hp _ h) (by decide)

/-- Spaces are in no order. -/
theorem spaces_comm (hq : ∀ c ∈ q.toList, c = ' ') : q ++ p = p ++ q := by
  have hboth {a b : String} (ha : ∀ c ∈ a.toList, c = ' ') (hb : ∀ c ∈ b.toList, c = ' ') :
      ∀ c ∈ (a ++ b).toList, c = ' ' := by
    intro c hc
    rw [String.toList_append, List.mem_append] at hc
    exact hc.elim (ha c) (hb c)
  rw [eq_spaces (hboth hq hp), eq_spaces (hboth hp hq), String.length_append, String.length_append,
    Nat.add_comm]

theorem dropSpaces_append (cs : List Char) : dropSpaces p.length (p.toList ++ cs) = cs := by
  have key : ∀ n, dropSpaces n (List.replicate n ' ' ++ cs) = cs := by
    intro n
    induction n with
    | zero => rw [dropSpaces.eq_def]; rfl
    | succ n ih => rw [List.replicate_succ, List.cons_append, dropSpaces, ih]
  rw [← String.length_toList, List.eq_replicate_of_mem hp, List.length_replicate]
  exact key _

/-- The spaces in front of a line come off again, and an empty line has none. -/
theorem dropSpaces_leadLine (l : String) :
    String.ofList (dropSpaces p.length (leadLine p l).toList) = l := by
  unfold leadLine
  by_cases h : l.isEmpty = true
  · have hl : l = "" := by simpa using h
    rw [if_pos h, hl]
    cases p.length <;> rfl
  · rw [if_neg h, String.toList_append, dropSpaces_append hp, String.ofList_toList]

/-- A slice that starts behind its lead loses the lead of its later lines. -/
theorem dedent_drop_indentLines {s : String} (hfirst : (lines s).head? ≠ some "")
    (hend : ∀ c ∈ s.toList.getLast?, isBlank c = false) :
    dedent (drop (indentLines p s) p.length) (p.length + 1) = s := by
  obtain ⟨first, rest, hs⟩ := List.exists_cons_of_ne_nil (lines_ne_nil s)
  have hne : ¬first.isEmpty = true := by simpa [hs] using hfirst
  have hlead : leadLine p first = p ++ first := if_neg hne
  -- the first line without its lead, and the later lines as they were printed
  have hslice : drop (indentLines p s) p.length = join "\n" (first :: rest.map (leadLine p)) := by
    apply String.toList_inj.1
    rw [indentLines_eq, hs, List.map_cons, hlead, drop, String.toList_ofList, toList_join_cons,
      toList_join_cons, String.toList_append, List.append_assoc, ← String.length_toList,
      List.drop_left]
  have hlines : lines (drop (indentLines p s) p.length) = first :: rest.map (leadLine p) := by
    rw [hslice]
    apply lines_join (List.cons_ne_nil _ _)
    intro l hl
    have hmem : ∀ m ∈ first :: rest, '\n' ∉ m.toList := fun m hm =>
      newline_not_mem_of_mem_lines (s := s) (hs ▸ hm)
    rcases List.mem_cons.1 hl with rfl | hl
    · exact hmem _ List.mem_cons_self
    · obtain ⟨m, hm, rfl⟩ := List.mem_map.1 hl
      exact newline_not_mem_leadLine (newline_not_mem_of_spaces hp)
        (hmem m (List.mem_cons_of_mem _ hm))
  have hback : (rest.map (leadLine p)).map (fun l => String.ofList (dropSpaces p.length l.toList)) =
      rest := by
    rw [List.map_map]
    exact List.map_id'' (fun l => dropSpaces_leadLine hp l) rest
  unfold dedent
  rw [hlines]
  dsimp only
  rw [Nat.add_sub_cancel, hback, ← hs, join_lines, trimEnd_eq_self hend]

end Spaces

theorem eq_space_of_mem_levels {ps : List String} (hps : ∀ p ∈ ps, ∀ c ∈ p.toList, c = ' ') :
    ∀ c ∈ (String.join ps).toList, c = ' ' := by
  induction ps with
  | nil => simp
  | cons p ps ih =>
    rw [List.forall_mem_cons] at hps
    intro c hc
    rw [String.join_cons, String.toList_append, List.mem_append] at hc
    exact hc.elim (hps.1 c) (ih hps.2 c)

/-- Levels of spaces, one after another, are one level of all their spaces. -/
theorem indentLines_levels {ps : List String} (hps : ∀ p ∈ ps, ∀ c ∈ p.toList, c = ' ')
    (s : String) :
    ps.foldl (fun t p => indentLines p t) s = indentLines (String.join ps) s := by
  induction ps generalizing s with
  | nil =>
    have hlead : leadLine "" = id := funext fun l => by simp [leadLine]
    rw [List.foldl_nil, String.join_nil, indentLines_eq, hlead, List.map_id, join_lines]
  | cons p ps ih =>
    rw [List.forall_mem_cons] at hps
    have hrest := eq_space_of_mem_levels hps.2
    rw [List.foldl_cons, ih hps.2, indentLines_indentLines (newline_not_mem_of_spaces hps.1),
      spaces_comm hps.1 hrest, String.join_cons]

/-- Two levels of spaces are one level of both, and a text with a first line and without blanks at
its end comes back from any depth when it is sliced at the column behind its lead. -/
theorem dedent_indentLines (s : String) :
    (∀ p q : String, (∀ c ∈ p.toList, c = ' ') → (∀ c ∈ q.toList, c = ' ') →
      indentLines q (indentLines p s) = indentLines (p ++ q) s) ∧
    ((lines s).head? ≠ some "" → (∀ c ∈ s.toList.getLast?, isBlank c = false) →
      (∀ k, dedent (drop (indentLines (spaces k) s) k) (k + 1) = s) ∧
      ∀ ps : List String, (∀ p ∈ ps, ∀ c ∈ p.toList, c = ' ') →
        dedent (drop (ps.foldl (fun t p => indentLines p t) s) (String.join ps).length)
          ((String.join ps).length + 1) = s) := by
  refine ⟨fun p q hp hq => ?_, fun hfirst hend => ⟨fun k => ?_, fun ps hps => ?_⟩⟩
  · rw [indentLines_indentLines (newline_not_mem_of_spaces hp), spaces_comm hp hq]
  · have hk := dedent_drop_indentLines (p := spaces k) (fun _ => eq_space_of_mem_spaces) hfirst hend
    rwa [length_spaces] at hk
  · rw [indentLines_levels hps]
    exact dedent_drop_indentLines (eq_space_of_mem_levels hps) hfirst hend

/-- A statement with an empty line, a line of blanks and a line that stands further right. -/
def loneStatement : String := "if (on) \x7b\n\n   \n    go();\n\x7d"

theorem dedent_indentLines_statement :
    (lines loneStatement).head? ≠ some "" ∧
      (∀ c ∈ loneStatement.toList.getLast?, isBlank c = false) ∧
      (∀ p ∈ ["  ", "    "], ∀ c ∈ p.toList, c = ' ') ∧
      indentLines "    " (indentLines "  " loneStatement) =
        indentLines ("  " ++ "    ") loneStatement ∧
      dedent (drop (indentLines (spaces 4) loneStatement) 4) (4 + 1) = loneStatement ∧
      dedent (drop (["  ", "    "].foldl (fun t p => indentLines p t) loneStatement)
        (String.join ["  ", "    "]).length) ((String.join ["  ", "    "]).length + 1) =
          loneStatement := by
  have hfirst : (lines loneStatement).head? ≠ some "" := by decide +kernel
  have hlast : loneStatement.toList.getLast? = some '\x7d' := by decide +kernel
  have hend : ∀ c ∈ loneStatement.toList.getLast?, isBlank c = false := by
    rw [hlast]
    rintro _ ⟨⟩
    rfl
  have hspaces : ∀ p ∈ ["  ", "    "], ∀ c ∈ p.toList, c = ' ' := by simp
  obtain ⟨hlevels, hback⟩ := dedent_indentLines loneStatement
  obtain ⟨hcolumn, hdeep⟩ := hback hfirst hend
  obtain ⟨hp, hq⟩ := List.forall_mem_cons.1 hspaces
  exact ⟨hfirst, hend, hspaces, hlevels _ _ hp (hq _ List.mem_cons_self), hcolumn 4,
    hdeep _ hspaces⟩

end WidgetBridge.Text
