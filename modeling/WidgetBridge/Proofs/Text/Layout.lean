import Mathlib.Data.List.Basic
import WidgetBridge.Text.Basic

/-!
# Layout at the level of characters

`join`, `lines` and `indentLines` work on texts.  This file gives their effect on lists of
characters: joining is `List.intercalate`, and indenting is the scan `indentChars`, which puts the
lead in front of the first character of every line that is not empty (`toList_indentLines`).  A run
of lines is indented line by line (`indentLines_join`).
-/

namespace WidgetBridge.Text

/-! ## Heads -/

theorem dropHead?_append (pat cs : List Char) : dropHead? pat (pat ++ cs) = some cs := by
  induction pat with
  | nil => rfl
  | cons p ps ih => simpa [dropHead?] using ih

theorem dropHead?_eq_some_iff {pat cs rest : List Char} :
    dropHead? pat cs = some rest ↔ cs = pat ++ rest := by
  constructor
  · induction pat generalizing cs with
    | nil => simp [dropHead?]
    | cons p ps ih =>
      cases cs with
      | nil => simp [dropHead?]
      | cons c cs =>
        simp only [dropHead?, beq_iff_eq]
        split_ifs with h
        · intro hr
          rw [h, ih hr, List.cons_append]
        · simp
  · rintro rfl
    exact dropHead?_append pat rest

/-- A character that does not occur in a pattern ends every match of the pattern. -/
theorem dropHead?_isSome_append_cons {pat : List Char} {d : Char} (hd : d ∉ pat)
    (cs rest : List Char) :
    (dropHead? pat (cs ++ d :: rest)).isSome = (dropHead? pat cs).isSome := by
  induction pat generalizing cs with
  | nil => rfl
  | cons p ps ih =>
    simp only [List.mem_cons, not_or] at hd
    cases cs with
    | nil => simp [dropHead?, Ne.symm hd.1]
    | cons c cs =>
      simp only [List.cons_append, dropHead?]
      split_ifs
      · exact ih hd.2 cs
      · rfl

theorem dropHead?_cons_of_ne {p c : Char} (h : p ≠ c) (ps cs : List Char) :
    dropHead? (p :: ps) (c :: cs) = none := by
  simp [dropHead?, h]

theorem toList_mark (c : Char) (s : String) : (String.singleton c ++ s).toList = c :: s.toList := by
  rw [String.toList_append, String.toList_singleton]
  rfl

theorem drop_mark (c : Char) (s : String) : drop (String.singleton c ++ s) 1 = s := by
  rw [drop, toList_mark, List.drop_one, List.tail_cons, String.ofList_toList]

theorem take_append (a b : String) : take (a ++ b) ((a ++ b).length - b.length) = a := by
  rw [take, String.toList_append, String.length_append, Nat.add_sub_cancel, ← String.length_toList,
    List.take_left, String.ofList_toList]

theorem hasHead_append (a b : String) : hasHead (a ++ b) a = true := by
  rw [hasHead, String.toList_append, dropHead?_append]
  rfl

theorem hasTail_append (a b : String) : hasTail (a ++ b) b = true := by
  rw [hasTail, String.toList_append, List.reverse_append, dropHead?_append]
  rfl

/-- Whether two texts differ at a place that both have. -/
def differ : List Char → List Char → Bool
  | c :: cs, d :: ds => c != d || differ cs ds
  | _, _ => false

/-- Texts that differ stay different, whatever is put after them. -/
theorem append_ne_of_differ {cs ds : List Char} (h : differ cs ds = true) (as bs : List Char) :
    cs ++ as ≠ ds ++ bs := by
  induction cs generalizing ds with
  | nil => cases h
  | cons c cs ih =>
    cases ds with
    | nil => cases h
    | cons d ds =>
      intro heq
      rw [List.cons_append, List.cons_append, List.cons.injEq] at heq
      rcases Bool.or_eq_true_iff.1 h with hne | htail
      · exact absurd heq.1 (by simpa using hne)
      · exact ih htail heq.2

theorem differ_append {cs ds : List Char} (h : differ cs ds = true) (bs : List Char) :
    differ cs (ds ++ bs) = true := by
  induction cs generalizing ds with
  | nil => cases h
  | cons c cs ih =>
    cases ds with
    | nil => cases h
    | cons d ds =>
      rw [List.cons_append, differ, Bool.or_eq_true]
      exact (Bool.or_eq_true_iff.1 h).imp_right ih

theorem dropHead?_of_differ {pat cs : List Char} (h : differ pat cs = true) :
    dropHead? pat cs = none := by
  cases hd : dropHead? pat cs with
  | none => rfl
  | some rest =>
    have heq := dropHead?_eq_some_iff.1 hd
    exact absurd (by simpa using heq.symm) (append_ne_of_differ h rest [])

/-! ## Occurrences -/

/-- Whether a pattern starts nowhere in a text, whatever is put after the text. -/
def skips (pat : List Char) : List Char → Bool
  | [] => true
  | c :: cs => differ pat (c :: cs) && skips pat cs

theorem skips_append {pat cs ds : List Char} (hc : skips pat cs = true) (hd : skips pat ds = true) :
    skips pat (cs ++ ds) = true := by
  induction cs with
  | nil => exact hd
  | cons c cs ih =>
    rw [skips, Bool.and_eq_true] at hc
    rw [List.cons_append, skips, Bool.and_eq_true]
    exact ⟨differ_append hc.1 ds, ih hc.2⟩

theorem skips_of_not_mem {p : Char} (ps : List Char) {cs : List Char} (h : p ∉ cs) :
    skips (p :: ps) cs = true := by
  induction cs with
  | nil => rfl
  | cons c cs ih =>
    rw [List.mem_cons, not_or] at h
    simp [skips, differ, h.1, ih h.2]

/-- For texts that are given it is enough to look at their characters. -/
theorem skips_ofList {pat cs : List Char} (h : skips pat cs = true) :
    skips (String.ofList pat).toList (String.ofList cs).toList = true := by
  rwa [String.toList_ofList, String.toList_ofList]

theorem not_mem_ofList {c : Char} {cs : List Char} (h : c ∉ cs) :
    c ∉ (String.ofList cs).toList := by
  rwa [String.toList_ofList]

theorem occursIn_eq_false {pat s : String} (hne : pat ≠ "") (h : skips pat.toList s.toList = true) :
    occursIn pat s = false := by
  have key : ∀ cs : List Char, skips pat.toList cs = true → cutFirst? pat.toList cs = none := by
    intro cs hcs
    induction cs with
    | nil => simp [cutFirst?, hne]
    | cons c cs ih =>
      rw [skips, Bool.and_eq_true] at hcs
      rw [cutFirst?, dropHead?_of_differ hcs.1, ih hcs.2]
      rfl
  rw [occursIn, cutAt?, key _ h]
  rfl

theorem occursIn_append (a pat b : String) : occursIn pat (a ++ pat ++ b) = true := by
  have key : ∀ cs : List Char, (cutFirst? pat.toList (cs ++ pat.toList ++ b.toList)).isSome =
      true := by
    intro cs
    induction cs with
    | nil =>
      rw [List.nil_append]
      cases hp : pat.toList ++ b.toList with
      | nil => simp [cutFirst?, List.append_eq_nil_iff.1 hp]
      | cons c cs => simp [cutFirst?, ← hp, dropHead?_append]
    | cons c cs ih =>
      rw [List.cons_append, List.cons_append, cutFirst?]
      split
      · rfl
      · rwa [Option.isSome_map]
  rw [occursIn, cutAt?, Option.isSome_map, String.toList_append, String.toList_append]
  exact key a.toList

theorem occursIn_of_infix {pat s : String} (h : pat.toList <:+: s.toList) :
    occursIn pat s = true := by
  obtain ⟨as, bs, h⟩ := h
  have hs : s = String.ofList as ++ pat ++ String.ofList bs := by
    apply String.toList_inj.1
    simp [← h]
  rw [hs]
  exact occursIn_append _ _ _

theorem cutFirst?_eq {pat cs as bs : List Char} (h : cutFirst? pat cs = some (as, bs)) :
    cs = as ++ (pat ++ bs) := by
  induction cs generalizing as with
  | nil =>
    unfold cutFirst? at h
    split_ifs at h with hpat
    cases h
    simp [List.isEmpty_iff.1 hpat]
  | cons c cs ih =>
    unfold cutFirst? at h
    split at h
    · next rest hrest =>
      cases h
      rw [List.nil_append]
      exact dropHead?_eq_some_iff.1 hrest
    · obtain ⟨⟨as', bs'⟩, hcut, heq⟩ := Option.map_eq_some_iff.1 h
      cases heq
      rw [ih hcut, List.cons_append]

theorem occursIn_iff {pat s : String} : occursIn pat s = true ↔ pat.toList <:+: s.toList := by
  refine ⟨fun h => ?_, occursIn_of_infix⟩
  rw [occursIn, cutAt?, Option.isSome_map, Option.isSome_iff_exists] at h
  obtain ⟨⟨as, bs⟩, h⟩ := h
  rw [cutFirst?_eq h]
  exact List.infix_append' as pat.toList bs

/-- A text is cut at the first place of a character. -/
theorem cutFirst?_of_not_mem {c : Char} {cs : List Char} (h : c ∉ cs) (rest : List Char) :
    cutFirst? [c] (cs ++ c :: rest) = some (cs, rest) := by
  induction cs with
  | nil => simp [cutFirst?, dropHead?]
  | cons d ds ih =>
    rw [List.mem_cons, not_or] at h
    rw [List.cons_append, cutFirst?, dropHead?_cons_of_ne h.1, ih h.2]
    rfl

theorem cutFirst?_eq_none {c : Char} {cs : List Char} (h : c ∉ cs) : cutFirst? [c] cs = none := by
  refine Option.eq_none_iff_forall_ne_some.2 fun r hr => h ?_
  rw [cutFirst?_eq hr]
  simp

theorem cutAt?_of_not_mem {c : Char} {pat s : String} (hpat : pat.toList = [c]) (h : c ∉ s.toList)
    (rest : String) :
    cutAt? (s ++ pat ++ rest) pat = some (s, rest) := by
  rw [cutAt?, String.toList_append, String.toList_append, hpat, List.append_assoc,
    List.singleton_append, cutFirst?_of_not_mem h, Option.map_some, String.ofList_toList,
    String.ofList_toList]

theorem cutAt?_eq_none {c : Char} {pat s : String} (hpat : pat.toList = [c]) (h : c ∉ s.toList) :
    cutAt? s pat = none := by
  rw [cutAt?, hpat, cutFirst?_eq_none h, Option.map_none]

/-! ## Joining -/

theorem join_cons_cons (sep s t : String) (ss : List String) :
    join sep (s :: t :: ss) = s ++ sep ++ join sep (t :: ss) := rfl

theorem toList_join (sep : String) (ss : List String) :
    (join sep ss).toList = sep.toList.intercalate (ss.map String.toList) := by
  induction ss with
  | nil => rfl
  | cons s ss ih =>
    cases ss with
    | nil => simp [join]
    | cons t ts =>
      rw [join_cons_cons, String.toList_append, String.toList_append, ih]
      simp [List.intercalate]

/-- A separator goes between two runs of texts, unless one of them is empty. -/
theorem join_append (sep : String) {ss ts : List String} (hs : ss ≠ []) (ht : ts ≠ []) :
    join sep (ss ++ ts) = join sep ss ++ sep ++ join sep ts := by
  induction ss with
  | nil => exact absurd rfl hs
  | cons s ss ih =>
    cases ss with
    | nil =>
      obtain ⟨t, ts, rfl⟩ := List.exists_cons_of_ne_nil ht
      rfl
    | cons s' ss =>
      rw [List.cons_append, List.cons_append, join_cons_cons, ← List.cons_append,
        ih (List.cons_ne_nil _ _), join_cons_cons]
      simp only [String.append_assoc]

/-- A first and a last text stand around texts that each have the separator in front. -/
theorem join_cons_concat (sep s t : String) (ss : List String) :
    join sep (s :: ss ++ [t]) = s ++ String.join (ss.map (sep ++ ·)) ++ sep ++ t := by
  induction ss generalizing s with
  | nil => simp [join]
  | cons u us ih =>
    rw [List.cons_append, List.cons_append, join_cons_cons, ← List.cons_append, ih, List.map_cons,
      String.join_cons]
    simp only [String.append_assoc]

/-- Behind the first text each has the separator in front. -/
theorem toList_join_cons (sep s : String) (ss : List String) :
    (join sep (s :: ss)).toList = s.toList ++ ss.flatMap fun t => sep.toList ++ t.toList := by
  induction ss generalizing s with
  | nil => simp [join]
  | cons t ts ih =>
    rw [join_cons_cons, String.toList_append, String.toList_append, ih, List.flatMap_cons]
    simp only [List.append_assoc]

/-- A joined text holds nothing but the separator and what its parts hold. -/
theorem mem_or_mem_of_mem_join {c : Char} {sep : String} {ss : List String}
    (h : c ∈ (join sep ss).toList) : c ∈ sep.toList ∨ ∃ s ∈ ss, c ∈ s.toList := by
  induction ss with
  | nil => cases h
  | cons s ss ih =>
    cases ss with
    | nil => exact Or.inr ⟨s, List.mem_cons_self, h⟩
    | cons t ts =>
      rw [join_cons_cons, String.toList_append, String.toList_append, List.mem_append,
        List.mem_append] at h
      rcases h with (h | h) | h
      · exact Or.inr ⟨s, List.mem_cons_self, h⟩
      · exact Or.inl h
      · exact (ih h).imp_right fun ⟨u, hu, hc⟩ => ⟨u, List.mem_cons_of_mem _ hu, hc⟩

theorem infix_join {s : String} {ss : List String} (h : s ∈ ss) (sep : String) :
    s.toList <:+: (join sep ss).toList := by
  induction ss with
  | nil => cases h
  | cons t ts ih =>
    cases ts with
    | nil =>
      rw [List.mem_singleton] at h
      rw [h]
      exact List.infix_rfl
    | cons u us =>
      rw [join_cons_cons, String.toList_append, String.toList_append]
      rcases List.mem_cons.1 h with rfl | h
      · exact (List.prefix_append _ _).isInfix.trans (List.prefix_append _ _).isInfix
      · exact (ih h).trans (List.suffix_append _ _).isInfix

theorem infix_concat {s : String} {ss : List String} (h : s ∈ ss) :
    s.toList <:+: (String.join ss).toList := by
  induction ss with
  | nil => cases h
  | cons t ts ih =>
    rw [String.join_cons, String.toList_append]
    rcases List.mem_cons.1 h with rfl | h
    · exact (List.prefix_append _ _).isInfix
    · exact (ih h).trans (List.suffix_append _ _).isInfix

/-! ## Lines -/

theorem splitChars_ne_nil (sep : Char) (cs : List Char) : splitChars sep cs ≠ [] := by
  cases cs with
  | nil => simp [splitChars]
  | cons c cs =>
    simp only [splitChars]
    split_ifs
    · simp
    · split <;> simp

theorem splitChars_cons_sep (sep : Char) (cs : List Char) :
    splitChars sep (sep :: cs) = [] :: splitChars sep cs := by
  simp [splitChars]

theorem splitChars_cons_of_ne {sep c : Char} (h : c ≠ sep) (cs : List Char) :
    ∃ part parts, splitChars sep cs = part :: parts ∧
      splitChars sep (c :: cs) = (c :: part) :: parts := by
  obtain ⟨part, parts, hp⟩ := List.exists_cons_of_ne_nil (splitChars_ne_nil sep cs)
  exact ⟨part, parts, hp, by simp [splitChars, h, hp]⟩

/-- The parts of two texts with a separator between them are the parts of the first and then those
of the second. -/
theorem splitChars_append_cons (sep : Char) (cs ds : List Char) :
    splitChars sep (cs ++ sep :: ds) = splitChars sep cs ++ splitChars sep ds := by
  induction cs with
  | nil => simp [splitChars]
  | cons c cs ih =>
    by_cases h : c = sep
    · subst h
      rw [List.cons_append, splitChars_cons_sep, ih, splitChars_cons_sep, List.cons_append]
    · obtain ⟨part, parts, hp, hc⟩ := splitChars_cons_of_ne h cs
      rw [List.cons_append, hc]
      simp [splitChars, h, ih, hp]

theorem lines_append_newline (s t : String) : lines (s ++ "\n" ++ t) = lines s ++ lines t := by
  have h : (s ++ "\n" ++ t).toList = s.toList ++ '\n' :: t.toList := by simp
  rw [lines, splitAt, h, splitChars_append_cons, List.map_append]
  rfl

theorem lines_ne_nil (s : String) : lines s ≠ [] := by
  simp [lines, splitAt, splitChars_ne_nil]

theorem not_mem_of_mem_splitChars {sep : Char} {cs part : List Char}
    (h : part ∈ splitChars sep cs) :
    sep ∉ part := by
  induction cs generalizing part with
  | nil =>
    rw [splitChars, List.mem_singleton] at h
    simp [h]
  | cons c cs ih =>
    by_cases hc : c = sep
    · subst hc
      rw [splitChars_cons_sep, List.mem_cons] at h
      rcases h with rfl | h
      · simp
      · exact ih h
    · obtain ⟨first, rest, hcs, hcons⟩ := splitChars_cons_of_ne hc cs
      rw [hcons, List.mem_cons] at h
      rcases h with rfl | h
      · simpa [Ne.symm hc] using ih (hcs ▸ List.mem_cons_self)
      · exact ih (hcs ▸ List.mem_cons_of_mem _ h)

theorem newline_not_mem_of_mem_lines {s l : String} (h : l ∈ lines s) : '\n' ∉ l.toList := by
  obtain ⟨part, hpart, rfl⟩ := List.mem_map.1 h
  rw [String.toList_ofList]
  exact not_mem_of_mem_splitChars hpart

theorem splitChars_of_not_mem {sep : Char} {cs : List Char} (h : sep ∉ cs) :
    splitChars sep cs = [cs] := by
  induction cs with
  | nil => rfl
  | cons c cs ih =>
    rw [List.mem_cons, not_or] at h
    obtain ⟨first, rest, hcs, hcons⟩ := splitChars_cons_of_ne (Ne.symm h.1) cs
    rw [ih h.2, List.cons.injEq] at hcs
    rw [hcons, ← hcs.1, ← hcs.2]

/-- The lines of texts that are put together are the lines of each. -/
theorem lines_join_flatMap {ss : List String} (h : ss ≠ []) :
    lines (join "\n" ss) = ss.flatMap lines := by
  induction ss with
  | nil => exact absurd rfl h
  | cons s ss ih =>
    cases ss with
    | nil => simp [join]
    | cons t ts =>
      rw [join_cons_cons, lines_append_newline, ih (List.cons_ne_nil t ts), ← List.flatMap_cons]

theorem lines_eq_singleton {s : String} (h : '\n' ∉ s.toList) : lines s = [s] := by
  rw [lines, splitAt, splitChars_of_not_mem h, List.map_singleton, String.ofList_toList]

/-- What is put in front of a text goes to its first line. -/
theorem lines_append_of_not_mem {lead : String} (h : '\n' ∉ lead.toList) (s : String) :
    ∃ first, lines (lead ++ s) = (lead ++ first) :: (lines s).tail := by
  have key (cs : List Char) (hcs : '\n' ∉ cs) :
      ∃ first, splitChars '\n' (cs ++ s.toList) =
        (cs ++ first) :: (splitChars '\n' s.toList).tail := by
    induction cs with
    | nil =>
      obtain ⟨first, rest, hs⟩ := List.exists_cons_of_ne_nil (splitChars_ne_nil '\n' s.toList)
      exact ⟨first, by rw [List.nil_append, List.nil_append, hs, List.tail_cons]⟩
    | cons c cs ih =>
      rw [List.mem_cons, not_or] at hcs
      obtain ⟨first, hfirst⟩ := ih hcs.2
      obtain ⟨part, parts, hparts, hcons⟩ := splitChars_cons_of_ne (Ne.symm hcs.1) (cs ++ s.toList)
      rw [hfirst, List.cons.injEq] at hparts
      exact ⟨first, by rw [List.cons_append, hcons, ← hparts.1, ← hparts.2, List.cons_append]⟩
  obtain ⟨first, hfirst⟩ := key lead.toList h
  refine ⟨String.ofList first, ?_⟩
  rw [lines, splitAt, String.toList_append, hfirst, List.map_cons, lines, splitAt, List.map_tail,
    String.ofList_append, String.ofList_toList]

/-- Lines that are put together are the lines of the whole. -/
theorem lines_join {ls : List String} (hne : ls ≠ []) (h : ∀ l ∈ ls, '\n' ∉ l.toList) :
    lines (join "\n" ls) = ls := by
  rw [lines_join_flatMap hne, List.flatMap_congr fun l hl => lines_eq_singleton (h l hl)]
  exact List.flatMap_singleton' ls

/-! ## Ends -/

/-- Dropping at the end stops at a character that stays. -/
theorem dropEndWhile_append_cons {p : Char → Bool} {c : Char} (h : p c = false)
    (cs ds : List Char) :
    dropEndWhile p (cs ++ c :: ds) = cs ++ c :: dropEndWhile p ds := by
  simp only [dropEndWhile, List.reverse_append, List.reverse_cons, List.append_assoc,
    List.dropWhile_append, List.singleton_append, List.dropWhile_cons, h]
  split_ifs <;> simp_all

theorem dropWhile_append_of_all {p : Char → Bool} {cs rest : List Char} (hcs : ∀ c ∈ cs, p c = true)
    (hrest : ∀ d ∈ rest.head?, p d = false) : (cs ++ rest).dropWhile p = rest := by
  rw [List.dropWhile_append_of_pos hcs]
  cases rest with
  | nil => rfl
  | cons d ds => simp [hrest d rfl]

theorem mem_of_mem_dropEndWhile {p : Char → Bool} {c : Char} {cs : List Char}
    (h : c ∈ dropEndWhile p cs) : c ∈ cs := by
  have hsuffix := (List.dropWhile_suffix (l := cs.reverse) p).subset (List.mem_reverse.1 h)
  exact List.mem_reverse.1 hsuffix

/-! ## Indentation -/

/-- Puts a lead in front of the first character of every line that is not empty. `fresh` says that
a line starts here. -/
def indentChars (lead : List Char) : (fresh : Bool) → List Char → List Char
  | _, [] => []
  | fresh, c :: cs =>
    if c = '\n' then '\n' :: indentChars lead true cs
    else (if fresh then lead else []) ++ c :: indentChars lead false cs

theorem indentChars_of_unbroken (lead : List Char) {cs : List Char} (h : '\n' ∉ cs)
    (rest : List Char) :
    indentChars lead false (cs ++ rest) = cs ++ indentChars lead false rest := by
  induction cs with
  | nil => rfl
  | cons c cs ih =>
    simp only [List.mem_cons, not_or] at h
    simp [indentChars, Ne.symm h.1, ih h.2]

theorem indentChars_append (lead : List Char) (fresh : Bool) (cs ds : List Char) :
    ∃ fresh', indentChars lead fresh (cs ++ ds) =
      indentChars lead fresh cs ++ indentChars lead fresh' ds := by
  induction cs generalizing fresh with
  | nil => exact ⟨fresh, rfl⟩
  | cons c cs ih =>
    by_cases hc : c = '\n'
    · obtain ⟨fresh', h⟩ := ih true
      exact ⟨fresh', by simp [indentChars, hc, h]⟩
    · obtain ⟨fresh', h⟩ := ih false
      exact ⟨fresh', by simp [indentChars, hc, h]⟩

/-- Where no line starts, only the lead in front is missing. -/
theorem suffix_indentChars (lead : List Char) (fresh : Bool) (cs : List Char) :
    indentChars lead false cs <:+ indentChars lead fresh cs := by
  cases cs with
  | nil => exact List.suffix_rfl
  | cons c cs =>
    by_cases hc : c = '\n'
    · simp [indentChars, hc]
    · simp [indentChars, hc]

/-- What a text holds is still there when the text is indented, with its later lines indented. -/
theorem infix_indentChars {cs ds : List Char} (h : cs <:+: ds) (lead : List Char) (fresh : Bool) :
    indentChars lead false cs <:+: indentChars lead fresh ds := by
  obtain ⟨as, bs, rfl⟩ := h
  obtain ⟨fresh₁, h₁⟩ := indentChars_append lead fresh (as ++ cs) bs
  obtain ⟨fresh₂, h₂⟩ := indentChars_append lead fresh as cs
  rw [h₁, h₂]
  have hmiddle := (suffix_indentChars lead fresh₂ cs).isInfix
  exact hmiddle.trans (List.infix_append _ _ _)

/-- The first line of some parts is led only if it is fresh, every other one in any case. -/
theorem intercalate_indent (lead cs : List Char) (fresh : Bool) (first : List Char)
    (rest : List (List Char)) (h : splitChars '\n' cs = first :: rest) :
    ['\n'].intercalate
        ((if first.isEmpty then first else (if fresh then lead else []) ++ first) ::
          rest.map fun l => if l.isEmpty then l else lead ++ l) =
      indentChars lead fresh cs := by
  induction cs generalizing fresh first rest with
  | nil =>
    simp only [splitChars, List.cons.injEq] at h
    obtain ⟨rfl, rfl⟩ := h
    simp [indentChars]
  | cons c cs ih =>
    by_cases hc : c = '\n'
    · subst hc
      rw [splitChars_cons_sep, List.cons.injEq] at h
      obtain ⟨rfl, rfl⟩ := h
      obtain ⟨first, rest, hp⟩ := List.exists_cons_of_ne_nil (splitChars_ne_nil '\n' cs)
      have ih := ih true first rest hp
      simp only [if_true] at ih
      simp only [hp, List.map_cons, List.isEmpty_nil, if_true, indentChars]
      rw [← ih]
      simp [List.intercalate]
    · obtain ⟨part, parts, hp, hcons⟩ := splitChars_cons_of_ne hc cs
      rw [hcons, List.cons.injEq] at h
      obtain ⟨rfl, rfl⟩ := h
      have ih := ih false part parts hp
      simp only [indentChars, hc, if_false, List.isEmpty_cons, Bool.false_eq_true,
        List.nil_append, ite_self] at ih ⊢
      rw [← ih]
      cases parts <;> simp [List.intercalate]

theorem toList_leadLine (lead : String) (l : List Char) :
    (if (String.ofList l).isEmpty then String.ofList l else lead ++ String.ofList l).toList =
      if l.isEmpty then l else lead.toList ++ l := by
  cases l <;> simp

theorem toList_indentLines (lead s : String) :
    (indentLines lead s).toList = indentChars lead.toList true s.toList := by
  obtain ⟨first, rest, h⟩ := List.exists_cons_of_ne_nil (splitChars_ne_nil '\n' s.toList)
  have hi := intercalate_indent lead.toList s.toList true first rest h
  rw [← hi, indentLines, toList_join, lines, splitAt, h]
  simp only [List.map_cons, List.map_map, if_true, toList_leadLine]
  congr 2
  exact List.map_congr_left fun l _ => toList_leadLine lead l

theorem indentLines_append_newline (lead s t : String) :
    indentLines lead (s ++ "\n" ++ t) = indentLines lead s ++ "\n" ++ indentLines lead t := by
  rw [indentLines, lines_append_newline, List.map_append,
    join_append _ (by simpa using lines_ne_nil s) (by simpa using lines_ne_nil t)]
  rfl

/-- A run of texts on lines of their own is indented text by text. -/
theorem indentLines_join (lead : String) {ss : List String} (h : ss ≠ []) :
    indentLines lead (join "\n" ss) = join "\n" (ss.map (indentLines lead)) := by
  induction ss with
  | nil => exact absurd rfl h
  | cons s ss ih =>
    cases ss with
    | nil => rfl
    | cons t ts =>
      rw [join_cons_cons, indentLines_append_newline, ih (List.cons_ne_nil _ _)]
      rfl

end WidgetBridge.Text
