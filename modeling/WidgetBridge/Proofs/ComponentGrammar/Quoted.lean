import Mathlib.Data.List.DropRight
import WidgetBridge.ComponentGrammar.Constant
import WidgetBridge.ComponentGrammar.Lexical
import WidgetBridge.ComponentGrammar.Literal
import WidgetBridge.Proofs.Text.CharClass

/-!
# Quoted texts of component source

A character stands in a quoted text as it is, behind a backslash, or as a number of four digits
(`Stands`).  The writer chooses one of the ways for each character (`stands_escapeChar`), and all
that is known of a quoted text follows from the ways: the reader takes each character back
(`decodePoints_of_stands`), the grammar goes on behind it (`quotedLength?_of_stands`), and there is
an even number of backslashes wherever a character begins (`odd_slashes_of_quote`).

So a text comes back from its literal (`string_reads_back`), and the grammar reads the literal to
its end and no further (`stringLength?_string`).
-/

namespace WidgetBridge.ComponentGrammar

open WidgetBridge.Text

/-! ## Characters -/

/-- How a character stands in a text in double quotes. -/
inductive Stands (c : Char) : List Char → Prop
  | bare (hquote : c ≠ '"') (hslash : c ≠ '\\') (hline : 32 ≤ c.toNat) : Stands c [c]
  | marked {e : Char} (he : e ∈ ['"', '\\', 'n', 'r', 't', 'b', 'f']) (h : simpleEscape e = c) :
    Stands c ['\\', e]
  | numbered {a b : Char} (ha : isHexDigit a = true) (hb : isHexDigit b = true)
    (h : hexValue ['0', '0', a, b] = c.toNat) : Stands c ['\\', 'u', '0', '0', a, b]

/-- The control characters that have no letter of their own are written by their numbers. -/
theorem stands_control : ∀ n : Fin 32, Char.ofNat n ∉ ['\n', '\r', '\t', '\x08', '\x0c'] →
    ∃ a b, escapeChar (Char.ofNat n) = ['\\', 'u', '0', '0', a, b] ∧ isHexDigit a = true ∧
      isHexDigit b = true ∧ hexValue ['0', '0', a, b] = n := by
  intro n hn
  refine ⟨((escapeChar (Char.ofNat n)).getD 4 '0'), ((escapeChar (Char.ofNat n)).getD 5 '0'), ?_⟩
  revert n
  decide

theorem stands_escapeChar (c : Char) : Stands c (escapeChar c) := by
  by_cases hmarked : c ∈ ['"', '\\', '\n', '\r', '\t', '\x08', '\x0c']
  · simp only [List.mem_cons, List.not_mem_nil, or_false] at hmarked
    rcases hmarked with rfl | rfl | rfl | rfl | rfl | rfl | rfl
    · exact .marked (e := '"') (by decide) rfl
    · exact .marked (e := '\\') (by decide) rfl
    · exact .marked (e := 'n') (by decide) rfl
    · exact .marked (e := 'r') (by decide) rfl
    · exact .marked (e := 't') (by decide) rfl
    · exact .marked (e := 'b') (by decide) rfl
    · exact .marked (e := 'f') (by decide) rfl
  · by_cases hline : c.toNat < 32
    · obtain ⟨a, b, heq, ha, hb, hvalue⟩ := stands_control ⟨c.toNat, hline⟩ (by
        rw [Char.ofNat_toNat]
        exact fun h => hmarked (by simp only [List.mem_cons] at h ⊢; tauto))
      rw [Char.ofNat_toNat] at heq
      rw [heq]
      exact .numbered ha hb hvalue
    · simp only [List.mem_cons, List.not_mem_nil, or_false, not_or] at hmarked
      obtain ⟨hquote, hslash, hn, hr, ht, hb, hf⟩ := hmarked
      have heq : escapeChar c = [c] := by simp [escapeChar, *]
      rw [heq]
      exact .bare hquote hslash (by omega)

section Characters

variable {c : Char} {cs rest : List Char}

theorem Stands.ne_newline (h : Stands c cs) : ∀ d ∈ cs, d ≠ '\n' ∧ d ≠ '\r' := by
  cases h with
  | bare hquote hslash hline =>
    refine List.forall_mem_singleton.2 ⟨?_, ?_⟩
    · rintro rfl
      simp at hline
    · rintro rfl
      simp at hline
  | @marked e he h =>
    have hmarks : ∀ e ∈ ['"', '\\', 'n', 'r', 't', 'b', 'f'], e ≠ '\n' ∧ e ≠ '\r' :=
      forall_mem_of_all (by decide)
    simpa using hmarks e he
  | @numbered a b ha hb h =>
    have hhex (d : Char) (hd : isHexDigit d = true) : d ≠ '\n' ∧ d ≠ '\r' := by
      constructor
      · rintro rfl
        cases hd
      · rintro rfl
        cases hd
    simpa using ⟨hhex a ha, hhex b hb⟩

/-- The reader takes the character back and goes on behind it. -/
theorem decodePoints_of_stands (h : Stands c cs) (rest : List Char) :
    decodePoints 0 (cs ++ rest) = c.toNat :: decodePoints 0 rest := by
  cases h with
  | bare hquote hslash hline =>
    rw [List.singleton_append, decodePoints.eq_4 c rest (fun d ds h _ => hslash h)]
  | marked he h =>
    subst h
    revert he
    simp only [List.mem_cons, List.not_mem_nil, or_false]
    rintro (rfl | rfl | rfl | rfl | rfl | rfl | rfl) <;> simp [decodePoints, numberedEscape?]
  | @numbered a b ha hb h =>
    have hdigits : numberedEscape? ('u' :: '0' :: '0' :: a :: b :: rest) = some (c.toNat, 5) := by
      have hzero : isHexDigit '0' = true := by decide
      simp [numberedEscape?, ha, hb, h, hzero]
    simp [decodePoints, hdigits]

/-- The grammar reads the character and goes on behind it. -/
theorem quotedLength?_of_stands (h : Stands c cs) (rest : List Char) :
    Lexical.quotedLength? '"' 0 (cs ++ rest) =
      (Lexical.quotedLength? '"' 0 rest).map (· + cs.length) := by
  cases h with
  | bare hquote hslash hline =>
    have hn : c ≠ '\n' := by rintro rfl; simp at hline
    have hr : c ≠ '\r' := by rintro rfl; simp at hline
    simp [Lexical.quotedLength?, hquote, hslash, hn, hr]
  | marked he h =>
    revert he
    simp only [List.mem_cons, List.not_mem_nil, or_false]
    rintro (rfl | rfl | rfl | rfl | rfl | rfl | rfl) <;>
      simp [Lexical.quotedLength?, Lexical.escapeLength?, Function.comp_def]
  | @numbered a b ha hb h =>
    have hzero : isHexDigit '0' = true := by decide
    simp [Lexical.quotedLength?, Lexical.escapeLength?, ha, hb, hzero, Function.comp_def]

/-- Between characters the number of backslashes is even. -/
theorem even_slashes_of_stands (h : Stands c cs) {before : List Char}
    (hbefore : (before.rtakeWhile (· == '\\')).length % 2 = 0) :
    ((before ++ cs).rtakeWhile (· == '\\')).length % 2 = 0 := by
  have hother {d : Char} (hd : d ≠ '\\') (ds : List Char) :
      ((ds ++ [d]).rtakeWhile (· == '\\')).length % 2 = 0 := by
    rw [List.rtakeWhile_concat_neg _ _ _ (by simpa using hd)]
    rfl
  cases h with
  | bare hquote hslash hline => exact hother hslash before
  | @marked e he h =>
    have hsplit : before ++ ['\\', e] = before ++ ['\\'] ++ [e] := by simp
    rw [hsplit]
    by_cases heq : e = '\\'
    · rw [heq, List.rtakeWhile_concat_pos _ _ _ rfl, List.rtakeWhile_concat_pos _ _ _ rfl,
        List.length_append, List.length_append, List.length_singleton]
      omega
    · exact hother heq _
  | @numbered a b ha hb h =>
    have hb : b ≠ '\\' := by
      rintro rfl
      cases hb
    have hsplit : before ++ ['\\', 'u', '0', '0', a, b] =
        before ++ ['\\', 'u', '0', '0', a] ++ [b] := by
      simp
    rw [hsplit]
    exact hother hb _

/-- A double quote that stands for a character, or for a part of one, has a backslash of its own. -/
theorem odd_slashes_of_stands (h : Stands c cs) {before as bs : List Char}
    (hbefore : (before.rtakeWhile (· == '\\')).length % 2 = 0) (hcs : cs = as ++ '"' :: bs) :
    ((before ++ as).rtakeWhile (· == '\\')).length % 2 = 1 := by
  cases h with
  | bare hquote hslash hline =>
    have hmem : '"' ∈ [c] := by simp [hcs]
    exact absurd (List.mem_singleton.1 hmem).symm hquote
  | @marked e he h =>
    obtain rfl : as = ['\\'] := by
      rcases as with _ | ⟨a, _ | ⟨a', as⟩⟩
      · simp at hcs
      · rw [List.singleton_append, List.cons.injEq] at hcs
        rw [hcs.1]
      · simp at hcs
    rw [List.rtakeWhile_concat_pos _ _ _ rfl, List.length_append, List.length_singleton]
    omega
  | @numbered a b ha hb h =>
    have hmem : '"' ∈ ['\\', 'u', '0', '0', a, b] := by simp [hcs]
    have ha : a ≠ '"' := by
      rintro rfl
      cases ha
    have hb : b ≠ '"' := by
      rintro rfl
      cases hb
    simp [Ne.symm ha, Ne.symm hb] at hmem

end Characters

/-! ## Texts -/

theorem toList_string (s : String) :
    (string s).toList = '"' :: (s.toList.flatMap escapeChar ++ ['"']) := by
  rw [string, String.toList_ofList]
  rfl

theorem ne_newline_of_mem_string {s : String} {c : Char} (h : c ∈ (string s).toList) :
    c ≠ '\n' ∧ c ≠ '\r' := by
  rw [toList_string, List.mem_cons, List.mem_append, List.mem_singleton, List.mem_flatMap] at h
  rcases h with rfl | ⟨d, -, hc⟩ | rfl
  · decide
  · exact (stands_escapeChar d).ne_newline c hc
  · decide

/-- A double quote inside a quoted text has an odd number of backslashes in front. -/
theorem odd_slashes_of_quote {cs before as bs : List Char}
    (hbefore : (before.rtakeWhile (· == '\\')).length % 2 = 0)
    (h : cs.flatMap escapeChar = as ++ '"' :: bs) :
    ((before ++ as).rtakeWhile (· == '\\')).length % 2 = 1 := by
  induction cs generalizing before as with
  | nil => simp at h
  | cons c cs ih =>
    rw [List.flatMap_cons] at h
    have hc := stands_escapeChar c
    rcases List.append_eq_append_iff.1 h with ⟨ds, has, hcs⟩ | ⟨ds, hc', hcs⟩
    · rw [has, ← List.append_assoc]
      exact ih (even_slashes_of_stands hc hbefore) hcs
    · cases ds with
      | nil =>
        -- the quote begins the next character
        rw [List.append_nil] at hc'
        have hnext : ((before ++ escapeChar c ++ []).rtakeWhile (· == '\\')).length % 2 = 1 :=
          ih (even_slashes_of_stands hc hbefore) (by simpa using hcs.symm)
        rwa [List.append_nil, hc'] at hnext
      | cons d ds =>
        rw [List.cons_append, List.cons.injEq] at hcs
        exact odd_slashes_of_stands hc hbefore (hcs.1 ▸ hc')

theorem decodePoints_flatMap (cs : List Char) :
    decodePoints 0 (cs.flatMap escapeChar) = cs.map Char.toNat := by
  induction cs with
  | nil => rfl
  | cons c cs ih =>
    rw [List.flatMap_cons, decodePoints_of_stands (stands_escapeChar c), ih, List.map_cons]

/-- Without backslashes every character stands for itself. -/
theorem decodePoints_of_not_mem {cs : List Char} (h : '\\' ∉ cs) :
    decodePoints 0 cs = cs.map Char.toNat := by
  induction cs with
  | nil => rfl
  | cons c cs ih =>
    rw [List.mem_cons, not_or] at h
    rw [decodePoints.eq_4 c cs (fun d ds hc _ => h.1 hc.symm), ih h.2, List.map_cons]

/-- No two characters are the halves of a pair. -/
theorem charsOf_map_toNat (cs : List Char) : charsOf (cs.map Char.toNat) = cs := by
  have hvalid (c : Char) : c.toNat < 0xD800 ∨ 0xDFFF < c.toNat := c.valid.imp id And.left
  induction cs with
  | nil => rfl
  | cons c cs ih =>
    cases cs with
    | nil => simp [charsOf]
    | cons d ds =>
      have hpair : (0xD800 ≤ c.toNat && c.toNat < 0xDC00 && 0xDC00 ≤ d.toNat && d.toNat < 0xE000) =
          false := by
        have := hvalid c
        simp
        omega
      rw [List.map_cons, List.map_cons, charsOf, hpair, if_neg (by decide), Char.ofNat_toNat,
        ← List.map_cons, ih]

/-- A text in quotes that is read as the numbers of some characters is those characters. -/
theorem decodeString_of_points {q q' : Char} {inner cs : List Char}
    (h : decodePoints 0 inner = cs.map Char.toNat) :
    decodeString (String.ofList (q :: (inner ++ [q']))) = .ok (String.ofList cs) := by
  have hrange : (cs.map Char.toNat).all (· ≤ 0x10FFFF) = true := by
    refine List.all_eq_true.2 fun n hn => ?_
    obtain ⟨c, -, rfl⟩ := List.mem_map.1 hn
    have hvalid : c.toNat < 0xD800 ∨ (0xDFFF < c.toNat ∧ c.toNat < 0x110000) := c.valid
    exact decide_eq_true (by omega)
  have hinner : (unquoted (String.ofList (q :: (inner ++ [q'])))).toList = inner := by
    simp [unquoted]
  rw [decodeString, hinner, h, hrange, if_pos rfl, charsOf_map_toNat]

/-- The grammar reads a literal up to its last character, whatever follows. -/
theorem stringLength?_string (s : String) (rest : List Char) :
    Lexical.stringLength? ((string s).toList ++ rest) = some (string s).toList.length := by
  have hinner (cs : List Char) : Lexical.quotedLength? '"' 0
      (cs.flatMap escapeChar ++ '"' :: rest) =
      some ((cs.flatMap escapeChar).length + 1) := by
    induction cs with
    | nil => rfl
    | cons c cs ih =>
      rw [List.flatMap_cons, List.append_assoc, quotedLength?_of_stands (stands_escapeChar c), ih,
        List.length_append, Option.map_some, Option.some.injEq]
      omega
  rw [toList_string, List.cons_append, List.append_assoc, List.singleton_append]
  simp [Lexical.stringLength?, hinner]

theorem decodeString_string (s : String) : decodeString (string s) = .ok s := by
  rw [← String.ofList_toList (s := string s), toList_string,
    decodeString_of_points (decodePoints_flatMap _), String.ofList_toList]

/-- A text comes back from its literal, which is on one line and holds no double quote without a
backslash of its own. -/
theorem string_reads_back (s : String) :
    (∀ c ∈ (string s).toList, c ≠ '\n' ∧ c ≠ '\r') ∧
    (∃ inner, (string s).toList = '"' :: (inner ++ ['"']) ∧
      ∀ before after, inner = before ++ '"' :: after →
        (before.rtakeWhile (· == '\\')).length % 2 = 1) ∧
    decodeString (string s) = .ok s := by
  refine ⟨fun c hc => ne_newline_of_mem_string hc, ⟨_, toList_string s, fun before after h => ?_⟩,
    decodeString_string s⟩
  have hodd : (([] ++ before).rtakeWhile (· == '\\')).length % 2 = 1 := odd_slashes_of_quote rfl h
  exact hodd

end WidgetBridge.ComponentGrammar
