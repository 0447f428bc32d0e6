import Mathlib.Data.List.SplitBy
import Mathlib.Data.List.TakeWhile
import WidgetBridge.Proofs.Route.Address
import WidgetBridge.Proofs.Text.CharClass

/-!
# Names of routes

The name of a route is made of the words of its path: `nameOfWords` is the name, and the words are
runs of ASCII letters and digits in the segments that bind nothing (`nameOfPath_eq`).  Such a name
is always an identifier in camel case, and it is the same for all ways to write a path with the same
segments (`isRouteName_nameOfPath`).

A path is cut at its first question mark before it is looked at, as if a query followed there.  The
mark of an optional parameter is a question mark too, so that the segments behind such a parameter
are lost: the name depends on the fixed segments alone exactly if there is no word among those
(`nameOfPath_fixed_iff`).
-/

namespace WidgetBridge.Route

open WidgetBridge.Text wordsOf

/-! ## Words -/

/-- A text of ASCII letters and digits that is not empty. -/
structure IsWord (w : String) : Prop where
  ne_empty : w ≠ ""
  chars : ∀ c ∈ w.toList, isWordChar c = true

/-- An identifier in camel case: a small letter, then letters and digits. -/
def IsRouteName (name : String) : Prop :=
  ∃ c cs, name.toList = c :: cs ∧ 'a' ≤ c ∧ c ≤ 'z' ∧ ∀ d ∈ cs, isWordChar d = true

/-- A segment whose words belong to the name of its path. -/
def isNamed (s : String) : Bool := !isBinding s && s.toList.any isWordChar

theorem toNat_lt_of_isWordChar {c : Char} (h : isWordChar c = true) : c.toNat < 128 := by
  simp only [isWordChar, Bool.or_eq_true, isLetter_iff, isDigit_iff] at h
  omega

/-- The capital of a letter or digit is one letter or digit. -/
theorem upperChar_of_isWordChar {c : Char} (h : isWordChar c = true) :
    ∃ d, upperChar c = [d] ∧ isWordChar d = true := by
  have hall : ∀ n : Fin 128, isWordChar (Char.ofNat n) = true →
      (upperChar (Char.ofNat n)).length = 1 ∧ (upperChar (Char.ofNat n)).all isWordChar = true := by
        decide
  obtain ⟨hlen, hword⟩ := forall_ascii
    (p := fun c =>
      isWordChar c = true → (upperChar c).length = 1 ∧ (upperChar c).all isWordChar = true)
    hall (toNat_lt_of_isWordChar h) h
  obtain ⟨d, hd⟩ := List.length_eq_one_iff.1 hlen
  exact ⟨d, hd, by simpa [hd] using hword⟩

/-- A letter or digit in lower case is a small letter or a digit. -/
theorem lowerChar_of_isWordChar {c : Char} (h : isWordChar c = true) :
    ∃ d, lowerChar c = [d] ∧ (('a' ≤ d ∧ d ≤ 'z') ∨ isDigit d = true) := by
  have hall : ∀ n : Fin 128, isWordChar (Char.ofNat n) = true →
      (lowerChar (Char.ofNat n)).length = 1 ∧
      (lowerChar (Char.ofNat n)).all (fun d => ('a' ≤ d && d ≤ 'z') || isDigit d) = true := by
        decide
  obtain ⟨hlen, hword⟩ := forall_ascii
    (p := fun c => isWordChar c = true → (lowerChar c).length = 1 ∧
      (lowerChar c).all (fun d => ('a' ≤ d && d ≤ 'z') || isDigit d) = true)
    hall (toNat_lt_of_isWordChar h) h
  obtain ⟨d, hd⟩ := List.length_eq_one_iff.1 hlen
  exact ⟨d, hd, by simpa [hd] using hword⟩

theorem isWordChar_of_lower {c : Char} (h : ('a' ≤ c ∧ c ≤ 'z') ∨ isDigit c = true) :
    isWordChar c = true := by
  rcases h with h | h
  · simp [isWordChar, isLetter, h]
  · simp [isWordChar, h]

/-- The runs of characters of one kind, letters and digits or others. -/
def runsOf (s : String) : List (List Char) :=
  s.toList.splitBy fun a b => isWordChar a == isWordChar b

theorem mem_toList_iff {s : String} {c : Char} : c ∈ s.toList ↔ ∃ run ∈ runsOf s, c ∈ run := by
  rw [← List.mem_flatten, runsOf, List.flatten_splitBy]

theorem isWordChar_of_mem_run {s : String} {run : List Char} (h : run ∈ runsOf s) {c d : Char}
    (hc : c ∈ run) (hd : d ∈ run) : isWordChar c = isWordChar d := by
  have : Std.Symm fun a b : Char => isWordChar a = isWordChar b := ⟨fun _ _ => Eq.symm⟩
  have halike : run.IsChain fun a b => isWordChar a = isWordChar b :=
    (List.isChain_of_mem_splitBy h).imp fun a b hab => by simpa using hab
  exact List.Pairwise.forall_of_forall (R := fun a b => isWordChar a = isWordChar b)
    (fun _ _ => rfl)
    (List.isChain_iff_pairwise.1 halike) hc hd

theorem mem_wordsOf_iff {s w : String} :
    w ∈ wordsOf s ↔ ∃ run ∈ runsOf s, run.any isWordChar = true ∧ String.ofList run = w := by
  simp only [wordsOf, List.mem_map, List.mem_filter, and_assoc, runsOf]

theorem isWord_of_mem_wordsOf {s w : String} (h : w ∈ wordsOf s) : IsWord w := by
  obtain ⟨run, hrun, hany, rfl⟩ := mem_wordsOf_iff.1 h
  obtain ⟨c, hc, hword⟩ := List.any_eq_true.1 hany
  refine ⟨by simpa using List.ne_nil_of_mem hc, fun d hd => ?_⟩
  rw [String.toList_ofList] at hd
  rw [isWordChar_of_mem_run hrun hd hc, hword]

theorem wordsOf_eq_nil_iff {s : String} : wordsOf s = [] ↔ s.toList.any isWordChar = false := by
  rw [List.eq_nil_iff_forall_not_mem, List.any_eq_false]
  constructor
  · intro h c hc hword
    obtain ⟨run, hrun, hc⟩ := mem_toList_iff.1 hc
    exact h _ (mem_wordsOf_iff.2 ⟨run, hrun, List.any_eq_true.2 ⟨c, hc, hword⟩, rfl⟩)
  · intro h w hw
    obtain ⟨run, hrun, hany, -⟩ := mem_wordsOf_iff.1 hw
    obtain ⟨c, hc, hword⟩ := List.any_eq_true.1 hany
    exact h c (mem_toList_iff.2 ⟨run, hrun, hc⟩) hword

/-! ## Names of words -/

/-- The name that words make: in camel case, and with a word in front where it would start with a
digit. -/
def nameOfWords : List String → String
  | [] => fallbackName
  | w :: ws =>
    let name := lowerFirst w ++ String.join (ws.map capitalizeFirst)
    if (name.toList.head?.map isDigit).getD false
      then fallbackName ++ capitalizeFirst name else name

/-- The words of segments that bind nothing. -/
def fixedWords (ss : List String) : List String := (ss.filter fun s => !isBinding s).flatMap wordsOf

theorem nameOfPath_eq (path : String) : nameOfPath path =
    if segments (before path "?") = [] then rootName
      else nameOfWords (fixedWords (segments (before path "?"))) := by
  unfold nameOfPath fixedWords
  cases segments (before path "?") with
  | nil => rfl
  | cons s ss =>
    rw [if_neg (List.cons_ne_nil s ss)]
    dsimp only
    generalize (List.filter _ _).flatMap wordsOf = words
    cases words with
    | nil => rfl
    | cons w ws =>
      dsimp only [nameOfWords]
      cases (lowerFirst w ++ String.join (ws.map capitalizeFirst)).toList with
      | nil => rfl
      | cons c cs => rfl

theorem capitalizeFirst_of_chars {s : String} (h : ∀ c ∈ s.toList, isWordChar c = true) :
    (∀ c ∈ (capitalizeFirst s).toList, isWordChar c = true) ∧
      (capitalizeFirst s).toList.length = s.toList.length := by
  unfold capitalizeFirst
  cases hs : s.toList with
  | nil => simp
  | cons c cs =>
    rw [hs, List.forall_mem_cons] at h
    obtain ⟨d, hd, hword⟩ := upperChar_of_isWordChar h.1
    simp only [hd, List.singleton_append, String.toList_ofList]
    exact ⟨List.forall_mem_cons.2 ⟨hword, h.2⟩, by simp⟩

/-- Words in camel case behind a first one. -/
theorem capitalized_of_words {ws : List String} (h : ∀ w ∈ ws, IsWord w) :
    (∀ c ∈ (String.join (ws.map capitalizeFirst)).toList, isWordChar c = true) ∧
      (String.join (ws.map capitalizeFirst)).toList.length = (ws.flatMap String.toList).length := by
  induction ws with
  | nil => simp
  | cons w ws ih =>
    rw [List.forall_mem_cons] at h
    obtain ⟨hchars, hlen⟩ := capitalizeFirst_of_chars h.1.chars
    obtain ⟨hrest, hsum⟩ := ih h.2
    rw [List.map_cons, String.join_cons, String.toList_append, List.length_append, hlen, hsum,
      List.flatMap_cons, List.length_append]
    exact ⟨List.forall_mem_append.2 ⟨hchars, hrest⟩, rfl⟩

theorem exists_lowerFirst {w : String} (h : IsWord w) : ∃ c cs, (lowerFirst w).toList = c :: cs ∧
    (('a' ≤ c ∧ c ≤ 'z') ∨ isDigit c = true) ∧ (∀ d ∈ cs, isWordChar d = true) ∧
    (c :: cs).length = w.toList.length := by
  obtain ⟨c, cs, hcs⟩ := List.exists_cons_of_ne_nil (show w.toList ≠ [] by simpa using h.ne_empty)
  have hword := h.chars
  rw [hcs, List.forall_mem_cons] at hword
  obtain ⟨d, hd, hlower⟩ := lowerChar_of_isWordChar hword.1
  refine ⟨d, cs, ?_, hlower, hword.2, by rw [hcs]; rfl⟩
  unfold lowerFirst
  rw [hcs]
  dsimp only
  rw [hd, List.singleton_append, String.toList_ofList]

theorem isRouteName_fallback_append {s : String} (h : ∀ c ∈ s.toList, isWordChar c = true) :
    IsRouteName (fallbackName ++ s) := by
  refine ⟨'r', "oute".toList ++ s.toList, by rw [String.toList_append]; rfl, by decide, by decide,
    ?_⟩
  refine List.forall_mem_append.2 ⟨?_, h⟩
  exact forall_mem_of_all (p := fun c => isWordChar c = true) (by decide)

theorem isRouteName_nameOfWords {ws : List String} (h : ∀ w ∈ ws, IsWord w) :
    IsRouteName (nameOfWords ws) := by
  cases ws with
  | nil => exact isRouteName_fallback_append (s := "") (by simp)
  | cons w ws =>
    rw [List.forall_mem_cons] at h
    obtain ⟨c, cs, hw, hfirst, hrest, -⟩ := exists_lowerFirst h.1
    have hname : (lowerFirst w ++ String.join (ws.map capitalizeFirst)).toList =
        c :: (cs ++ (String.join (ws.map capitalizeFirst)).toList) := by
      rw [String.toList_append, hw, List.cons_append]
    have hchars := List.forall_mem_append.2 ⟨hrest, (capitalized_of_words h.2).1⟩
    rw [nameOfWords, hname, List.head?_cons, Option.map_some, Option.getD_some]
    split_ifs with hdigit
    · refine isRouteName_fallback_append (capitalizeFirst_of_chars ?_).1
      rw [hname]
      exact List.forall_mem_cons.2 ⟨isWordChar_of_lower hfirst, hchars⟩
    · have hletter := hfirst.resolve_right hdigit
      exact ⟨c, _, hname, hletter.1, hletter.2, hchars⟩

/-- More words make a longer name. -/
theorem length_nameOfWords_lt {ws vs : List String} (hws : ∀ w ∈ ws, IsWord w)
    (hvs : ∀ v ∈ vs, IsWord v) (hne : ws ≠ []) (hmore : vs ≠ []) :
    (nameOfWords ws).toList.length < (nameOfWords (ws ++ vs)).toList.length := by
  obtain ⟨w, ws, rfl⟩ := List.exists_cons_of_ne_nil hne
  obtain ⟨v, vs, rfl⟩ := List.exists_cons_of_ne_nil hmore
  rw [List.forall_mem_cons] at hws
  obtain ⟨c, cs, hw, hfirst, hrest, hlen⟩ := exists_lowerFirst hws.1
  have hall : ∀ u ∈ ws ++ v :: vs, IsWord u := List.forall_mem_append.2 ⟨hws.2, hvs⟩
  -- what the words behind the first one add does not depend on how the name starts
  have key (us : List String) (hus : ∀ u ∈ us, IsWord u) : (nameOfWords (w :: us)).toList.length =
      (if isDigit c then fallbackName.length else 0) + w.toList.length +
        (us.flatMap String.toList).length := by
    obtain ⟨hchars, hsum⟩ := capitalized_of_words hus
    have hname : (lowerFirst w ++ String.join (us.map capitalizeFirst)).toList =
        c :: (cs ++ (String.join (us.map capitalizeFirst)).toList) := by
      rw [String.toList_append, hw, List.cons_append]
    have hword : ∀ d ∈ (lowerFirst w ++ String.join (us.map capitalizeFirst)).toList,
        isWordChar d = true := by
      rw [hname]
      exact List.forall_mem_cons.2
        ⟨isWordChar_of_lower hfirst, List.forall_mem_append.2 ⟨hrest, hchars⟩⟩
    have htotal : (lowerFirst w ++ String.join (us.map capitalizeFirst)).toList.length =
        w.toList.length + (us.flatMap String.toList).length := by
      rw [hname, ← List.cons_append, List.length_append, hlen, hsum]
    rw [nameOfWords, hname, List.head?_cons, Option.map_some, Option.getD_some]
    split_ifs
    · rw [String.toList_append, List.length_append, (capitalizeFirst_of_chars hword).2, htotal,
        String.length_toList]
      omega
    · rw [htotal]
      omega
  have hv : 0 < v.toList.length :=
    List.length_pos_iff.2 (by simpa using (hvs v List.mem_cons_self).ne_empty)
  rw [List.cons_append, key ws hws.2, key (ws ++ v :: vs) hall, List.flatMap_append,
    List.length_append, List.flatMap_cons, List.length_append]
  omega

/-! ## Segments -/

theorem toList_before (s : String) : (before s "?").toList = s.toList.takeWhile (· != '?') := by
  by_cases h : '?' ∈ s.toList
  · obtain ⟨as, bs, hs, has⟩ := List.eq_append_cons_of_mem h
    have hcut : cutAt? s "?" = some (String.ofList as, String.ofList bs) := by
      rw [cutAt?, hs, show "?".toList = ['?'] from rfl, cutFirst?_of_not_mem has]
      rfl
    have hall : ∀ c ∈ as, (c != '?') = true := by
      intro c hc
      simpa using fun heq : c = '?' => has (heq ▸ hc)
    rw [before, hcut, hs, String.toList_ofList, List.takeWhile_append_of_pos hall,
      List.takeWhile_cons_of_neg (by simp), List.append_nil]
  · have hall : ∀ c ∈ s.toList, (c != '?') = true := by
      intro c hc
      simpa using fun heq : c = '?' => h (heq ▸ hc)
    rw [before_of_not_mem h, List.takeWhile_eq_self_iff.2 hall]

/-- The segments in front of a question mark, with what the segment of the mark has in front of
it. -/
def cutSegments : List String → List String
  | [] => []
  | s :: ss => if '?' ∈ s.toList then [before s "?"] else s :: cutSegments ss

theorem splitAt_before (path : String) :
    splitAt (before path "?") '/' = cutSegments (splitAt path '/') := by
  unfold splitAt
  rw [toList_before]
  induction path.toList with
  | nil => rfl
  | cons c cs ih =>
    by_cases hmark : c = '?'
    · subst hmark
      obtain ⟨part, parts, -, hsplit⟩ := splitChars_cons_of_ne (show '?' ≠ '/' by decide) cs
      rw [hsplit, List.map_cons, cutSegments, if_pos (by simp),
        List.takeWhile_cons_of_neg (by simp)]
      have hempty : before (String.ofList ('?' :: part)) "?" = "" := by
        apply String.toList_inj.1
        rw [toList_before, String.toList_ofList, List.takeWhile_cons_of_neg (by simp)]
        rfl
      rw [hempty]
      rfl
    · rw [List.takeWhile_cons_of_pos (by simpa using hmark)]
      by_cases hslash : c = '/'
      · subst hslash
        rw [splitChars_cons_sep, splitChars_cons_sep, List.map_cons, List.map_cons, ih, cutSegments]
        rfl
      · obtain ⟨part, parts, hparts, hsplit⟩ := splitChars_cons_of_ne hslash cs
        obtain ⟨part', parts', hparts', hsplit'⟩ :=
          splitChars_cons_of_ne hslash (cs.takeWhile (· != '?'))
        rw [hparts, hparts', List.map_cons, List.map_cons, cutSegments, String.toList_ofList] at ih
        rw [hsplit, hsplit', List.map_cons, List.map_cons, cutSegments, String.toList_ofList]
        have hmem : '?' ∈ c :: part ↔ '?' ∈ part := by simp [Ne.symm hmark]
        rw [if_congr hmem rfl rfl]
        split_ifs at ih ⊢ with hin
        · obtain ⟨hpart, hrest⟩ := List.cons.inj ih
          have hcut : part' = part.takeWhile (· != '?') := by
            rw [← String.toList_ofList (l := part'), hpart, toList_before, String.toList_ofList]
          rw [hrest, List.cons.injEq]
          refine ⟨?_, rfl⟩
          apply String.toList_inj.1
          rw [toList_before, String.toList_ofList, String.toList_ofList,
            List.takeWhile_cons_of_pos (by simpa using hmark), hcut]
        · obtain ⟨hpart, hrest⟩ := List.cons.inj ih
          rw [hrest, String.ofList_inj.1 hpart]

/-- A text that can be a segment of a path. -/
structure IsPart (s : String) : Prop where
  ne_empty : s ≠ ""
  no_slash : '/' ∉ s.toList

theorem filter_cutSegments (ss : List String) : (cutSegments ss).filter (fun s => !s.isEmpty) =
    (cutSegments (ss.filter fun s => !s.isEmpty)).filter fun s => !s.isEmpty := by
  induction ss with
  | nil => rfl
  | cons s ss ih =>
    by_cases hempty : s = ""
    · subst hempty
      rw [cutSegments, if_neg (by simp), List.filter_cons_of_neg (by simp),
        List.filter_cons_of_neg (by simp), ih]
    · rw [List.filter_cons_of_pos (by simpa using hempty), cutSegments, cutSegments]
      split_ifs
      · rfl
      · rw [List.filter_cons_of_pos (by simpa using hempty),
          List.filter_cons_of_pos (by simpa using hempty), ih]

/-- What is in front of a query depends on the segments only. -/
theorem segments_before (path : String) : segments (before path "?") =
    (cutSegments (segments path)).filter fun s => !s.isEmpty := by
  rw [segments, splitAt_before, filter_cutSegments, ← segments]

theorem isPart_of_mem_segments {path s : String} (h : s ∈ segments path) : IsPart s := by
  refine ⟨ne_empty_of_mem_segments h, ?_⟩
  obtain ⟨part, hpart, rfl⟩ := List.mem_map.1 (List.mem_filter.1 h).1
  rw [String.toList_ofList]
  exact not_mem_of_mem_splitChars hpart

/-- Segments that are put together are the segments of the path. -/
theorem segments_joined {ss : List String} (h : ∀ s ∈ ss, IsPart s) :
    segments (joined ss) = ss := by
  have hspread (ss : List String) (h : ∀ s ∈ ss, IsPart s) (cs : List Char) (hcs : '/' ∉ cs) :
      (splitChars '/' (cs ++ spread ss)).map String.ofList = String.ofList cs :: ss := by
    induction ss generalizing cs with
    | nil => rw [spread, List.flatMap_nil, List.append_nil, splitChars_of_not_mem hcs,
      List.map_singleton]
    | cons s ss ih =>
      rw [List.forall_mem_cons] at h
      rw [spread, List.flatMap_cons, ← spread, List.cons_append, splitChars_append_cons,
        splitChars_of_not_mem hcs, List.map_append, List.map_singleton,
        ih h.2 s.toList h.1.no_slash, String.ofList_toList]
      rfl
  have hfilter : ss.filter (fun s => !s.isEmpty) = ss :=
    List.filter_eq_self.2 fun s hs => by simpa using (h s hs).ne_empty
  rw [segments, splitAt, toList_joined]
  split_ifs with hnil
  · subst hnil
    rfl
  · have hparts := hspread ss h [] List.not_mem_nil
    rw [List.nil_append] at hparts
    rw [hparts, List.filter_cons_of_neg (by simp), hfilter]

theorem segments_normalizePath (path : String) : segments (normalizePath path) = segments path :=
  segments_joined fun _ => isPart_of_mem_segments

/-- The name of a path is an identifier, and that of the path in its normal form. -/
theorem isRouteName_nameOfPath (path : String) :
    IsRouteName (nameOfPath path) ∧ nameOfPath (normalizePath path) = nameOfPath path := by
  constructor
  · rw [nameOfPath_eq]
    split_ifs
    · exact ⟨'h', ['o', 'm', 'e'], rfl, by decide, by decide, forall_mem_of_all (by decide)⟩
    · refine isRouteName_nameOfWords fun w hw => ?_
      obtain ⟨s, -, hw⟩ := List.mem_flatMap.1 hw
      exact isWord_of_mem_wordsOf hw
  · rw [nameOfPath_eq, nameOfPath_eq, segments_before, segments_before, segments_normalizePath]

/-! ## Fixed segments -/

/-- A segment of a path of routes: it binds a parameter, or it is fixed and holds no question
mark. -/
structure IsSegment (s : String) : Prop extends IsPart s where
  no_mark : isBinding s = false → '?' ∉ s.toList

/-- The segments that bind nothing. -/
def fixedSegments (ss : List String) : List String := ss.filter fun s => !isBinding s

/-- The segments in front of the first optional parameter. -/
def ahead (ss : List String) : List String := ss.takeWhile fun s => !s.toList.contains '?'

/-- The first optional parameter, and the segments behind it. -/
def behind (ss : List String) : List String := ss.dropWhile fun s => !s.toList.contains '?'

theorem fixedWords_eq_nil_iff {ss : List String} :
    fixedWords ss = [] ↔ ∀ s ∈ ss, isNamed s = false := by
  simp only [fixedWords, List.flatMap_eq_nil_iff, List.mem_filter, wordsOf_eq_nil_iff, isNamed]
  refine forall_congr' fun s => ?_
  cases isBinding s <;> simp

theorem fixedWords_fixedSegments (ss : List String) :
    fixedWords (fixedSegments ss) = fixedWords ss := by
  rw [fixedWords, fixedSegments, List.filter_filter]
  simp only [Bool.and_self]
  rfl

theorem fixedWords_ahead_append (ss : List String) :
    fixedWords (ahead ss) ++ fixedWords (behind ss) = fixedWords ss := by
  rw [fixedWords, fixedWords, ← List.flatMap_append, ← List.filter_append, ahead, behind,
    List.takeWhile_append_dropWhile]
  rfl

/-- What is left of an optional parameter when it is cut at its mark binds a parameter still. -/
theorem isBinding_before {s : String} (h : isBinding s = true) :
    isBinding (before s "?") = true := by
  have hhead (c : Char) (hc : c ≠ '?') (hs : hasHead s (String.singleton c) = true) :
      hasHead (before s "?") (String.singleton c) = true := by
    obtain ⟨rest, hrest⟩ := Option.isSome_iff_exists.1 hs
    rw [dropHead?_eq_some_iff, String.toList_singleton] at hrest
    rw [hasHead, toList_before, hrest, String.toList_singleton, List.singleton_append,
      List.takeWhile_cons_of_pos (by simpa using hc)]
    simp [dropHead?]
  rw [isBinding, Bool.or_eq_true] at h ⊢
  exact h.imp (hhead ':' (by decide)) (hhead '*' (by decide))

theorem fixedWords_cutSegments {ss : List String} (h : ∀ s ∈ ss, IsSegment s) :
    fixedWords ((cutSegments ss).filter fun s => !s.isEmpty) = fixedWords (ahead ss) := by
  induction ss with
  | nil => rfl
  | cons s ss ih =>
    rw [List.forall_mem_cons] at h
    rw [cutSegments, ahead]
    by_cases hmark : '?' ∈ s.toList
    · have hbinding : isBinding s = true := by
        by_contra hfixed
        exact h.1.no_mark (Bool.eq_false_iff.2 hfixed) hmark
      rw [if_pos hmark, List.takeWhile_cons_of_neg (by simpa using hmark)]
      refine fixedWords_eq_nil_iff.2 fun t ht => ?_
      rw [List.mem_singleton.1 (List.mem_filter.1 ht).1, isNamed, isBinding_before hbinding]
      rfl
    · rw [if_neg hmark, List.takeWhile_cons_of_pos (by simpa using hmark),
        List.filter_cons_of_pos (by simpa using h.1.ne_empty), ← ahead]
      have hcons (ts : List String) : fixedWords (s :: ts) = fixedWords [s] ++ fixedWords ts := by
        rw [fixedWords, fixedWords, fixedWords, ← List.flatMap_append, ← List.filter_append]
        rfl
      rw [hcons, hcons (ahead ss), ih h.2]

/-- The words in front of the first optional parameter make the name. -/
theorem nameOfPath_joined {ss : List String} (h : ∀ s ∈ ss, IsSegment s) (hne : ss ≠ []) :
    nameOfPath (joined ss) = nameOfWords (fixedWords (ahead ss)) := by
  have hparts : segments (joined ss) = ss := segments_joined fun s hs => (h s hs).toIsPart
  rw [nameOfPath_eq, segments_before, hparts, fixedWords_cutSegments h, if_neg]
  obtain ⟨s, ss, rfl⟩ := List.exists_cons_of_ne_nil hne
  rw [List.forall_mem_cons] at h
  rw [cutSegments]
  split_ifs with hmark
  · have hbinding : isBinding s = true := by
      by_contra hfixed
      exact h.1.no_mark (Bool.eq_false_iff.2 hfixed) hmark
    have hempty : before s "?" ≠ "" := by
      intro heq
      have hcut := isBinding_before hbinding
      rw [heq] at hcut
      cases hcut
    rw [List.filter_cons_of_pos (by simpa using hempty)]
    exact List.cons_ne_nil _ _
  · rw [List.filter_cons_of_pos (by simpa using h.1.ne_empty)]
    exact List.cons_ne_nil _ _

theorem ahead_fixedSegments {ss : List String} (h : ∀ s ∈ ss, IsSegment s) :
    ahead (fixedSegments ss) = fixedSegments ss := by
  refine List.takeWhile_eq_self_iff.2 fun s hs => ?_
  obtain ⟨hmem, hfixed⟩ := List.mem_filter.1 hs
  simpa using (h s hmem).no_mark (by simpa using hfixed)

/-- The name of a path depends on its fixed segments alone exactly if no word stands behind an
optional parameter; without a word in front of it the name may be the same by chance. -/
theorem nameOfPath_fixed_iff {ss : List String} (h : ∀ s ∈ ss, IsSegment s)
    (hword : ∃ s ∈ ss, isNamed s = true) :
    nameOfPath (joined ss) = nameOfPath (joined (fixedSegments ss)) ↔
      (∀ s ∈ behind ss, isNamed s = false) ∨
        ((∀ s ∈ ahead ss, isNamed s = false) ∧ nameOfPath (joined (fixedSegments ss)) =
          fallbackName) := by
  have hfixed : ∀ s ∈ fixedSegments ss, IsSegment s := fun s hs => h s (List.mem_filter.1 hs).1
  obtain ⟨s, hs, hnamed⟩ := hword
  have hne : ss ≠ [] := List.ne_nil_of_mem hs
  have hfixedNe : fixedSegments ss ≠ [] := by
    rw [isNamed, Bool.and_eq_true] at hnamed
    exact List.ne_nil_of_mem (List.mem_filter.2 ⟨hs, hnamed.1⟩)
  have hwords (ts : List String) : ∀ w ∈ fixedWords ts, IsWord w := by
    intro w hw
    obtain ⟨t, -, hw⟩ := List.mem_flatMap.1 hw
    exact isWord_of_mem_wordsOf hw
  rw [nameOfPath_joined h hne, nameOfPath_joined hfixed hfixedNe, ahead_fixedSegments h,
    fixedWords_fixedSegments, ← fixedWords_ahead_append ss, ← fixedWords_eq_nil_iff,
    ← fixedWords_eq_nil_iff]
  by_cases hbehind : fixedWords (behind ss) = []
  · simp [hbehind]
  · by_cases hahead : fixedWords (ahead ss) = []
    · simp only [hahead, hbehind, List.nil_append, false_or, true_and]
      exact eq_comm
    · have hlt := length_nameOfWords_lt (hwords _) (hwords _) hahead hbehind
      have hdiffer : nameOfWords (fixedWords (ahead ss)) ≠
          nameOfWords (fixedWords (ahead ss) ++ fixedWords (behind ss)) := by
        intro heq
        rw [← heq] at hlt
        exact absurd hlt (lt_irrefl _)
      simp [hdiffer, hahead, hbehind]

theorem nameOfPath_fixed_iff_posts :
    (∀ s ∈ ["users", ":id", "posts", ":page?"], IsSegment s) ∧
    (∃ s ∈ ["users", ":id", "posts", ":page?"], isNamed s = true) ∧
    (∀ s ∈ behind ["users", ":id", "posts", ":page?"], isNamed s = false) ∧
    nameOfPath (joined ["users", ":id", "posts", ":page?"]) =
      nameOfPath (joined ["users", "posts"]) := by
  have hsegments : ∀ s ∈ ["users", ":id", "posts", ":page?"], IsSegment s := by
    simp only [List.forall_mem_cons]
    refine ⟨⟨⟨?_, ?_⟩, ?_⟩, ⟨⟨?_, ?_⟩, ?_⟩, ⟨⟨?_, ?_⟩, ?_⟩, ⟨⟨?_, ?_⟩, ?_⟩, List.forall_mem_nil _⟩
    all_goals decide
  have hnamed : ∃ s ∈ ["users", ":id", "posts", ":page?"], isNamed s = true :=
    ⟨"users", List.mem_cons_self, by decide⟩
  have hbehind : ∀ s ∈ behind ["users", ":id", "posts", ":page?"], isNamed s = false := by decide
  exact ⟨hsegments, hnamed, hbehind, (nameOfPath_fixed_iff hsegments hnamed).2 (.inl hbehind)⟩

/-- A word behind an optional parameter does not get into the name. -/
theorem nameOfPath_fixed_language :
    (∀ s ∈ [":lang?", "users"], IsSegment s) ∧ (∃ s ∈ [":lang?", "users"], isNamed s = true) ∧
    nameOfPath (joined [":lang?", "users"]) = "route" ∧
    nameOfPath (joined (fixedSegments [":lang?", "users"])) = "users" := by
  refine ⟨?_, ⟨"users", by decide, by decide⟩, by decide, by decide⟩
  simp only [List.forall_mem_cons]
  refine ⟨⟨⟨?_, ?_⟩, ?_⟩, ⟨⟨?_, ?_⟩, ?_⟩, List.forall_mem_nil _⟩
  all_goals decide

end WidgetBridge.Route
