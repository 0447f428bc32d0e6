import WidgetBridge.Proofs.ComponentGrammar.Quoted
import WidgetBridge.Proofs.Number.Numeral
import WidgetBridge.Proofs.Text.Search
import WidgetBridge.Proofs.WidgetGrammar.Boundary
import WidgetBridge.Proofs.Writing.Verbatim

/-!
# Line feeds in printed constants

A text on one line passes through indentation as it is: a lead may go in front of it, and the later
lines of what follows are led (`exists_indentLines_around`).  Constants are printed on one line but
for two forms, in which a test that looks up to the end of a text passes over a line feed there: a
key that is a name with a line feed behind it stands bare (`newline_mem_key_iff`), and so does an
attribute whose text is plain but for a line feed at its end (`newline_mem_attributeText_iff`).
-/

namespace WidgetBridge.Writing

open WidgetBridge.Text WidgetBridge.Number WidgetBridge.ComponentGrammar
open WidgetBridge.WidgetGrammar (isName newline_not_mem_of_isName)

/-! ## Keys -/

/-- A name with a line feed behind it. -/
def IsBrokenName (k : String) : Prop := ∃ n, isName n = true ∧ k = n ++ "\n"

mutual

/-- The keys of the maps in some data, at any depth. -/
def keysIn : Value → List String
  | .list items => keysInItems items
  | .map entries => keysInEntries entries
  | _ => []

/-- The keys in the members of a list. -/
def keysInItems : List Value → List String
  | [] => []
  | v :: vs => keysIn v ++ keysInItems vs

/-- The keys of entries and those in their values. -/
def keysInEntries : List (String × Value) → List String
  | [] => []
  | (k, v) :: es => k :: keysIn v ++ keysInEntries es

end

theorem newline_not_mem_string (s : String) : '\n' ∉ (string s).toList := fun h =>
  (ne_newline_of_mem_string h).1 rfl

theorem isBareKey_append_newline (n : String) : isBareKey (n ++ "\n") = isName n := by
  have hreverse : (n ++ "\n").toList.reverse = '\n' :: n.toList.reverse := by simp
  unfold isBareKey isName
  simp only [hreverse, List.reverse_reverse]
  cases n.toList <;> rfl

theorem isBareKey_of_no_end {k : String} (h : ∀ n, k ≠ n ++ "\n") : isBareKey k = isName k := by
  have hlast : ∀ rest, k.toList.reverse ≠ '\n' :: rest := by
    intro rest hk
    refine h (String.ofList rest.reverse) (String.toList_inj.1 ?_)
    rw [String.toList_append, String.toList_ofList, ← List.reverse_reverse k.toList, hk,
      List.reverse_cons]
    rfl
  unfold isBareKey isName
  -- no line feed at the end is cut off
  simp only
  cases k.toList <;> rfl

theorem isBareKey_iff {k : String} : isBareKey k = true ↔ isName k = true ∨ IsBrokenName k := by
  by_cases hk : ∃ n, k = n ++ "\n"
  · obtain ⟨n, rfl⟩ := hk
    have hname : ¬isName (n ++ "\n") = true := fun h => newline_not_mem_of_isName h (by simp)
    rw [isBareKey_append_newline]
    refine ⟨fun h => .inr ⟨n, h, rfl⟩, fun h => ?_⟩
    obtain ⟨m, hm, heq⟩ := h.resolve_left hname
    rwa [(String.append_left_inj "\n").1 heq]
  · rw [isBareKey_of_no_end (not_exists.1 hk)]
    refine ⟨.inl, fun h => h.resolve_right ?_⟩
    rintro ⟨n, -, rfl⟩
    exact hk ⟨n, rfl⟩

theorem newline_mem_of_isBrokenName {k : String} (h : IsBrokenName k) : '\n' ∈ k.toList := by
  obtain ⟨n, -, rfl⟩ := h
  simp

/-- A key is printed on one line unless it is a name with a line feed behind it, which stands
bare. -/
theorem newline_mem_key_iff (k : String) : '\n' ∈ (key k).toList ↔ IsBrokenName k := by
  unfold key
  split_ifs with hbare
  · refine ⟨fun hn => (isBareKey_iff.1 hbare).resolve_left fun hname => ?_,
      newline_mem_of_isBrokenName⟩
    exact newline_not_mem_of_isName hname hn
  · refine iff_of_false (newline_not_mem_string k) fun h => hbare (isBareKey_iff.2 (.inr h))

/-! ## Data -/

theorem newline_mem_join_iff {sep : String} (hsep : '\n' ∉ sep.toList) {ss : List String} :
    '\n' ∈ (join sep ss).toList ↔ ∃ s ∈ ss, '\n' ∈ s.toList := by
  refine ⟨fun h => (mem_or_mem_of_mem_join h).resolve_left hsep, ?_⟩
  rintro ⟨s, hs, hn⟩
  exact (infix_join hs sep).subset hn

mutual

theorem newline_mem_ofValue_iff : (v : Value) →
    ('\n' ∈ (ofValue v).toList ↔ ∃ k ∈ keysIn v, IsBrokenName k)
  | .null => by simp [ofValue, keysIn]
  | .bool true => by simp [ofValue, keysIn]
  | .bool false => by simp [ofValue, keysIn]
  | .int i => by simp [ofValue, keysIn, newline_not_mem_showInt]
  | .float x => by
    unfold ofValue
    split_ifs <;> simp [keysIn, newline_not_mem_showFloat]
  | .str s => by simp [ofValue, keysIn, newline_not_mem_string]
  | .list items => by
    have hitems := newline_mem_ofItems_iff items
    simp [ofValue, keysIn, newline_mem_join_iff, hitems]
  | .map [] => by simp [ofValue, keysIn, keysInEntries]
  | .map (e :: es) => by
    have hentries := newline_mem_ofEntries_iff (e :: es)
    simp [ofValue, keysIn, newline_mem_join_iff, hentries]

theorem newline_mem_ofItems_iff : (vs : List Value) →
    ((∃ s ∈ ofItems vs, '\n' ∈ s.toList) ↔ ∃ k ∈ keysInItems vs, IsBrokenName k)
  | [] => by simp [ofItems, keysInItems]
  | v :: vs => by
    rw [ofItems, keysInItems, List.exists_mem_cons_iff, newline_mem_ofValue_iff v,
      newline_mem_ofItems_iff vs]
    simp only [List.mem_append, or_and_right, exists_or]

theorem newline_mem_ofEntries_iff : (es : List (String × Value)) →
    ((∃ s ∈ ofEntries es, '\n' ∈ s.toList) ↔ ∃ k ∈ keysInEntries es, IsBrokenName k)
  | [] => by simp [ofEntries, keysInEntries]
  | (k, v) :: es => by
    have hentry : '\n' ∈ (key k ++ ": " ++ ofValue v).toList ↔
        IsBrokenName k ∨ ∃ k ∈ keysIn v, IsBrokenName k := by
      simp [newline_mem_key_iff, newline_mem_ofValue_iff v]
    rw [ofEntries, keysInEntries, List.exists_mem_cons_iff, hentry, newline_mem_ofEntries_iff es,
      List.cons_append, List.exists_mem_cons_iff, or_assoc]
    simp only [List.mem_append, or_and_right, exists_or]

end

/-! ## Attributes -/

/-- Characters that stand in the quotes of an attribute as they are. -/
def IsPlain (t : String) : Prop := ∀ c ∈ t.toList, c ≠ '"' ∧ c ≠ '&' ∧ c ≠ '\n'

/-- A text that is plain but for a line feed at its end. -/
def IsBrokenPlain (s : String) : Prop := ∃ t, IsPlain t ∧ s = t ++ "\n"

theorem plainAttribute_iff {s : String} :
    plainAttribute.matchesStart s = true ↔ IsPlain s ∨ IsBrokenPlain s := by
  have hplain (t : String) : (∀ c ∈ t.toList, (!"\"&\n".toList.contains c) = true) ↔ IsPlain t := by
    simp [IsPlain]
  have hends := @Pattern.matchesStart_all_iff (fun c => !"\"&\n".toList.contains c) rfl s
  simp only [hplain] at hends
  refine hends.trans ⟨?_, ?_⟩
  · rintro ⟨t, ht, rfl | rfl⟩
    · exact .inl ht
    · exact .inr ⟨t, ht, rfl⟩
  · rintro (h | ⟨t, ht, rfl⟩)
    · exact ⟨s, h, .inl rfl⟩
    · exact ⟨t, ht, .inr rfl⟩

theorem newline_mem_of_isBrokenPlain {s : String} (h : IsBrokenPlain s) : '\n' ∈ s.toList := by
  obtain ⟨t, -, rfl⟩ := h
  simp

theorem newline_mem_braced (name source : String) :
    '\n' ∈ (name ++ "=" ++ braced source).toList ↔ '\n' ∈ name.toList ∨ '\n' ∈ source.toList := by
  simp [braced]

/-- An attribute is printed on one line unless its name or a key is broken, or its text is plain but
for a line feed at its end, which stands in quotes as it is. -/
theorem newline_mem_attributeText_iff (name : String) (kind : LiteralKind) (v : Value) :
    '\n' ∈ (attributeText name (.lit kind v)).toList ↔ '\n' ∈ name.toList ∨
      (∃ s, v = .str s ∧ IsBrokenPlain s) ∨ ∃ k ∈ keysIn v, IsBrokenName k := by
  have hbraced : '\n' ∈ (name ++ "=" ++ braced (ofValue v)).toList ↔
      '\n' ∈ name.toList ∨ ∃ k ∈ keysIn v, IsBrokenName k := by
    rw [newline_mem_braced, newline_mem_ofValue_iff]
  cases v with
  | bool b =>
    cases b with
    | true => simp [attributeText, keysIn]
    | false =>
      simpa only [attributeText, reduceCtorEq, false_and, exists_false, false_or] using hbraced
  | str s =>
    simp only [attributeText]
    split_ifs with hplain
    · rcases plainAttribute_iff.1 hplain with h | h
      · have hunbroken : '\n' ∉ s.toList := fun hn => (h _ hn).2.2 rfl
        have hbroken : ¬IsBrokenPlain s := fun h => hunbroken (newline_mem_of_isBrokenPlain h)
        simp [hunbroken, hbroken, keysIn]
      · simp [h, newline_mem_of_isBrokenPlain h]
    · have hbroken : ¬IsBrokenPlain s := fun h => hplain (plainAttribute_iff.2 (.inr h))
      rw [newline_mem_braced]
      simp [newline_not_mem_string, keysIn, hbroken]
  | _ => simpa only [attributeText, reduceCtorEq, false_and, exists_false, false_or] using hbraced

/-! ## Indentation -/

theorem exists_indentChars (lead cs : List Char) (fresh : Bool) :
    ∃ gap, (gap = [] ∨ gap = lead) ∧ indentChars lead fresh cs =
      gap ++ indentChars lead false cs := by
  cases cs with
  | nil => exact ⟨[], .inl rfl, rfl⟩
  | cons c cs =>
    by_cases hc : c = '\n'
    · exact ⟨[], .inl rfl, by simp [indentChars, hc]⟩
    · cases fresh with
      | false => exact ⟨[], .inl rfl, rfl⟩
      | true => exact ⟨lead, .inr rfl, by simp [indentChars, hc]⟩

/-- What stands in front of a text on one line may gain a lead, and what follows it is indented from
where it stands; the text itself stays. -/
theorem exists_indentLines_around {text : String} (h : '\n' ∉ text.toList)
    (lead before after : String) :
    ∃ gap, (gap = "" ∨ gap = lead) ∧ indentLines lead (before ++ text ++ after) =
      indentLines lead before ++ gap ++ text ++ Motion.indentTail after lead := by
  obtain ⟨fresh, hbefore⟩ :=
    indentChars_append lead.toList true before.toList (text.toList ++ after.toList)
  obtain ⟨gap, hgap, hlead⟩ := exists_indentChars lead.toList (text.toList ++ after.toList) fresh
  refine ⟨String.ofList gap,
    hgap.imp (fun h => by rw [h]) (fun h => by rw [h, String.ofList_toList]), ?_⟩
  rw [← String.toList_inj]
  simp only [toList_indentLines, toList_indentTail, String.toList_append, String.toList_ofList,
    List.append_assoc]
  rw [hbefore, hlead, indentChars_of_unbroken _ h]

/-! ## Constants -/

/-- A constant is printed with a line feed just where a key or a plain text has one at its end;
otherwise indentation leaves it as it is, whatever stands around it. -/
theorem newline_mem_constant_iff (name : String) (v : Value) :
    ('\n' ∈ (ofValue v).toList ↔ ∃ k ∈ keysIn v, IsBrokenName k) ∧
    ('\n' ∈ (attributeText name (.literal v)).toList ↔ '\n' ∈ name.toList ∨
      (∃ s, v = .str s ∧ IsBrokenPlain s) ∨ ∃ k ∈ keysIn v, IsBrokenName k) ∧
    ∀ text ∈ [ofValue v, attributeText name (.literal v)], '\n' ∉ text.toList →
      ∀ lead before after, ∃ gap, (gap = "" ∨ gap = lead) ∧
        indentLines lead (before ++ text ++ after) =
        indentLines lead before ++ gap ++ text ++ Motion.indentTail after lead :=
  ⟨newline_mem_ofValue_iff v, newline_mem_attributeText_iff name v.kind v,
    fun _ _ h => exists_indentLines_around h⟩

/-- A line feed inside a text or a key is escaped, and the list keeps its line. -/
theorem newline_mem_constant_iff_pages :
    attributeText "pages" (.literal (.list [.str "a\nb", .map [("c\nd", .int 1)]])) =
        "pages=\x7b[\"a\\nb\", \x7b \"c\\nd\": 1 \x7d]\x7d" ∧
      '\n' ∉ "pages=\x7b[\"a\\nb\", \x7b \"c\\nd\": 1 \x7d]\x7d".toList ∧
      ∃ gap, (gap = "" ∨ gap = "  ") ∧
        indentLines "  "
          ("<Tabs\n" ++ "pages=\x7b[\"a\\nb\", \x7b \"c\\nd\": 1 \x7d]\x7d" ++ "\n/>") =
          indentLines "  " "<Tabs\n" ++ gap ++
            "pages=\x7b[\"a\\nb\", \x7b \"c\\nd\": 1 \x7d]\x7d" ++
            Motion.indentTail "\n/>" "  " := by
  have htext : attributeText "pages" (.literal (.list [.str "a\nb", .map [("c\nd", .int 1)]])) =
      "pages=\x7b[\"a\\nb\", \x7b \"c\\nd\": 1 \x7d]\x7d" := by decide +kernel
  obtain ⟨-, -, hindent⟩ :=
    newline_mem_constant_iff "pages" (.list [.str "a\nb", .map [("c\nd", .int 1)]])
  rw [htext] at hindent
  have hline : '\n' ∉ "pages=\x7b[\"a\\nb\", \x7b \"c\\nd\": 1 \x7d]\x7d".toList := by decide
  exact ⟨htext, hline, hindent _ (by simp) hline "  " "<Tabs\n" "\n/>"⟩

/-- A title with a line feed at its end stands in quotes as it is, and so does a key: they gain the
lead of a line. -/
theorem newline_mem_brokenTitle :
    attributeText "title" (.literal (.str "a\n")) = "title=\"a\n\"" ∧
      indentLines "  " (attributeText "title" (.literal (.str "a\n"))) = "  title=\"a\n  \"" ∧
      ofValue (.map [("a\n", .int 1)]) = "\x7b a\n: 1 \x7d" := by
  decide +kernel

end WidgetBridge.Writing
