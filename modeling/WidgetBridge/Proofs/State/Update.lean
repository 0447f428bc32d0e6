import WidgetBridge.Proofs.State.Renaming
import WidgetBridge.Proofs.Text.CharTable

/-!
# Statements that change a name

`IsMutation name cs value` says that the text `cs` changes `name`, and that the name gets `value`:
by a step in front of the name or behind it, by an operator with an operand, or by a plain
assignment.  `normalizeMutation` finds just these texts (`normalizeMutation_eq_some_iff`).

Three patterns are tried one after another.  What each of them takes is read off its parts, and a
text of each kind is taken by the pattern of its kind and by none that is tried before it: a step
holds no sign of equality, and behind the name of a plain assignment stands no operator.
-/

namespace WidgetBridge.State

open WidgetBridge.Text WidgetBridge.Text.Pattern

/-! ## Names that are assigned to -/

/-- A name as assignments know it: a letter of ASCII, the underscore or `$`, and then characters of
names of any script. -/
def IsIdent (name : String) : Prop :=
  ∃ c cs, name.toList = c :: cs ∧ isNameStart c = true ∧ ∀ d ∈ cs, isNamePart d = true

theorem isNamePart_of_isNameChar {c : Char} (h : isNameChar c = true) : isNamePart c = true :=
  isWord_of_isNameChar h

theorem isNamePart_of_isNameStart {c : Char} (h : isNameStart c = true) : isNamePart c = true :=
  isNamePart_of_isNameChar (isNameChar_of_isNameStart h)

theorem not_isBlank_of_isNameStart {c : Char} (h : isNameStart c = true) : isBlank c = false :=
  not_isBlank_of_isNameChar (isNameChar_of_isNameStart h)

theorem not_isNamePart_of_isBlank {c : Char} (h : isBlank c = true) : isNamePart c = false := by
  rw [isNamePart, not_isWord_of_isBlank h, Bool.false_or, beq_eq_false_iff_ne]
  rintro rfl
  cases h

theorem IsIdent.isNameWord {name : String} (h : IsIdent name) : IsNameWord name.toList := by
  obtain ⟨c, cs, hs, hc, hcs⟩ := h
  rw [hs]
  exact ⟨List.cons_ne_nil c cs, List.forall_mem_cons.2 ⟨isNamePart_of_isNameStart hc, hcs⟩⟩

/-! ## What a statement changes -/

/-- The source of an assignment. -/
def assign (name value : String) : String := name ++ " = " ++ value

theorem toList_assign (name value : String) :
    (assign name value).toList = name.toList ++ ' ' :: '=' :: ' ' :: value.toList := by
  simp [assign]

/-- The signs that change a name by one. -/
def stepSigns : List String := ["++", "--"]

/-- The operators that an assignment can hold. -/
def compoundOperators : List String := ["+", "-", "*", "/", "%", "~/", "??"]

/-- A name with a sign that changes it by one, in front of it or behind it. -/
inductive Stepped (name sign : String) : List Char → Prop
  | before {gap : List Char} (hn : IsIdent name) (hgap : ∀ c ∈ gap, isBlank c = true)
  (hsign : sign ∈ stepSigns) :
      Stepped name sign (sign.toList ++ (gap ++ name.toList))
  | behind {gap : List Char} (hn : IsIdent name) (hgap : ∀ c ∈ gap, isBlank c = true)
      (hsign : sign ∈ stepSigns) :
      Stepped name sign (name.toList ++ (gap ++ sign.toList))

/-- The value of a name that a sign changes by one. -/
def steppedValue (name sign : String) : String := name ++ " " ++ take sign 1 ++ " 1"

/-- The operand of an operator, in brackets unless it is a name or a number. -/
def operandText (operand : String) : String :=
  if Form.simpleOperand.matchesStart operand then operand else "(" ++ operand ++ ")"

/-- What stands behind a name that is assigned to, with the value that the name gets. -/
inductive Update (name : String) : List Char → String → Prop
  | compound {op : String} {operand : List Char} (hop : op ∈ compoundOperators)
      (hoperand : ∃ c ∈ operand, isBlank c = false) :
      Update name (op.toList ++ '=' :: operand)
        (name ++ " " ++ op ++ " " ++ operandText (trim (String.ofList operand)))
  | plain {value : List Char} (hnext : ∀ c ∈ value.head?, c ≠ '=' ∧ c ≠ '>')
      (hvalue : ∃ c ∈ value, isBlank c = false) : Update name ('=' :: value)
        (trim (String.ofList value))

/-- The text of a statement that changes a name, with the value that the name gets. -/
inductive IsMutation (name : String) : List Char → String → Prop
  | stepped {sign : String} {cs : List Char} (h : Stepped name sign cs) :
  IsMutation name cs (steppedValue name sign)
  | assigned {gap cs : List Char} {value : String} (hn : IsIdent name)
      (hgap : ∀ c ∈ gap, isBlank c = true)
      (h : Update name cs value) : IsMutation name (name.toList ++ (gap ++ cs)) value

section Texts

variable {name value : String} {cs gap : List Char}

theorem Stepped.isIdent {sign : String} (h : Stepped name sign cs) : IsIdent name := by
  cases h with
  | before hn => exact hn
  | behind hn => exact hn

theorem Stepped.equal_not_mem {sign : String} (h : Stepped name sign cs) : '=' ∉ cs := by
  have hsigns : ∀ sign ∈ stepSigns, '=' ∉ sign.toList := by decide
  have hname : '=' ∉ name.toList :=
    fun hmem => absurd (h.isIdent.isNameWord.parts _ hmem) (by decide)
  have hblank {gap : List Char} (hgap : ∀ c ∈ gap, isBlank c = true) : '=' ∉ gap :=
    fun hmem => absurd (hgap _ hmem) (by decide)
  cases h with
  | before hn hgap hsign => simp [hsigns sign hsign, hblank hgap, hname]
  | behind hn hgap hsign => simp [hsigns sign hsign, hblank hgap, hname]

theorem Update.equal_mem (h : Update name cs value) : '=' ∈ cs := by
  cases h <;> simp

/-! ### Heads -/

/-- A character that the operators start with. -/
def isSign (c : Char) : Bool := "+-*/%~?=".toList.contains c

theorem not_isNamePart_of_isSign {c : Char} (h : isSign c = true) : isNamePart c = false := by
  have hall : ∀ c ∈ "+-*/%~?=".toList, isNamePart c = false := forall_mem_of_all (by decide)
  exact hall c (List.contains_iff_mem.1 h)

theorem not_isBlank_of_isSign {c : Char} (h : isSign c = true) : isBlank c = false := by
  have hall : ∀ c ∈ "+-*/%~?=".toList, isBlank c = false := forall_mem_of_all (by decide)
  exact hall c (List.contains_iff_mem.1 h)

/-- To know how all texts of a list start it is enough to look at their first characters. -/
theorem exists_head_of_all {p : Char → Bool} {ss : List String}
    (hss : ss.all (fun s => s.toList.head?.any p) = true) {s : String} (hs : s ∈ ss)
    (ds : List Char) : ∃ c es, s.toList ++ ds = c :: es ∧ p c = true := by
  have hany := List.all_eq_true.1 hss s hs
  cases hl : s.toList with
  | nil => simp [hl] at hany
  | cons c cs =>
    rw [hl] at hany
    exact ⟨c, cs ++ ds, rfl, hany⟩

theorem exists_step_head {sign : String} (hsign : sign ∈ stepSigns) (ds : List Char) :
    ∃ c es, sign.toList ++ ds = c :: es ∧ isSign c = true :=
  exists_head_of_all (by decide) hsign ds

theorem exists_operator_head {op : String} (hop : op ∈ compoundOperators) (ds : List Char) :
    ∃ c es, op.toList ++ ds = c :: es ∧ isSign c = true ∧ c ≠ '=' := by
  obtain ⟨c, es, hes, hc⟩ :=
    exists_head_of_all (p := fun c => isSign c && c != '=') (by decide) hop ds
  rw [Bool.and_eq_true, bne_iff_ne] at hc
  exact ⟨c, es, hes, hc⟩

theorem Update.exists_head (h : Update name cs value) : ∃ c ds, cs = c :: ds ∧ isSign c = true := by
  cases h with
  | compound hop =>
    obtain ⟨c, ds, hds, hc, -⟩ := exists_operator_head hop _
    exact ⟨c, ds, hds, hc⟩
  | plain => exact ⟨'=', _, rfl, by decide⟩

/-- A name ends where a gap and a sign follow. -/
theorem not_isNamePart_of_gap (hgap : ∀ c ∈ gap, isBlank c = true) {c : Char} (hc : isSign c = true)
    (ds : List Char) : ∀ d ∈ (gap ++ c :: ds).head?, isNamePart d = false := by
  cases gap with
  | nil =>
    rintro d ⟨⟩
    exact not_isNamePart_of_isSign hc
  | cons b bs =>
    rintro d ⟨⟩
    exact not_isNamePart_of_isBlank (hgap _ List.mem_cons_self)

/-- What stands behind a name and the blanks after it. -/
def behindGap (cs : List Char) : List Char := (cs.dropWhile isNamePart).dropWhile isBlank

theorem behindGap_of_name (hn : IsIdent name) (hgap : ∀ c ∈ gap, isBlank c = true) {c : Char}
    (hc : isSign c = true) (ds : List Char) :
    behindGap (name.toList ++ (gap ++ c :: ds)) = c :: ds := by
  rw [behindGap, dropWhile_append_of_all hn.isNameWord.parts (not_isNamePart_of_gap hgap hc ds),
    dropWhile_append_of_all hgap]
  rintro d ⟨⟩
  exact not_isBlank_of_isSign hc

/-- What ends with no blank holds a character that is none. -/
theorem exists_not_isBlank_of_last {ds : List Char} (hds : ds ≠ [])
    (hlast : ∀ c ∈ (cs ++ ds).getLast?, isBlank c = false) : ∃ c ∈ ds, isBlank c = false := by
  refine ⟨ds.getLast hds, List.getLast_mem hds, hlast _ ?_⟩
  rw [List.getLast?_append_of_ne_nil _ hds]
  exact List.getLast_mem_getLast? hds

end Texts

/-! ## What the patterns take -/

section Spans

variable {cs : List Char} {gs : Groups} {s : String} {m : Match}

theorem spans_name (h : Spans Pattern.name cs gs) : ∃ name, IsIdent name ∧ cs = name.toList := by
  obtain ⟨_, ds, _, _, rfl, -, ⟨c, hc, rfl, -⟩, hrep⟩ := h
  obtain ⟨-, hall, -⟩ := spans_rep_char hrep
  exact ⟨String.ofList (c :: ds), ⟨c, ds, String.toList_ofList, hc, hall⟩, by simp⟩

variable (hlast : ∀ c ∈ s.toList.getLast?, isBlank c = false)

include hlast

theorem newline_not_mem_last : '\n' ∉ s.toList.getLast? :=
  fun hmem => absurd (hlast _ hmem) (by decide)

theorem exists_stepped (h : Form.stepped.matchStart? s = some m) :
    ∃ name sign, Stepped name sign s.toList := by
  obtain ⟨_, text, _, _, hs, -, ⟨rfl, -⟩, hspans⟩ := spans_of_textEnd h (newline_not_mem_last hlast)
  rw [hs, List.nil_append]
  rcases hspans with hbehind | hbefore
  · obtain ⟨_, _, _, _, rfl, -, ⟨_, gap, _, _, rfl, -, ⟨_, -, hname⟩, hgap⟩, ⟨_, -, hsign⟩⟩ :=
      hbehind
    obtain ⟨name, hn, rfl⟩ := spans_name hname
    obtain ⟨-, hblank, -⟩ := spans_rep_char hgap
    obtain ⟨-, sign, hmem, rfl⟩ := spans_choice (show Spans (choice "++" ["--"]) _ _ from hsign)
    rw [List.append_assoc]
    exact ⟨name, sign, .behind hn hblank hmem⟩
  · obtain ⟨_, _, _, _, rfl, -, ⟨_, gap, _, _, rfl, -, ⟨_, -, hsign⟩, hgap⟩, ⟨_, -, hname⟩⟩ :=
      hbefore
    obtain ⟨name, hn, rfl⟩ := spans_name hname
    obtain ⟨-, hblank, -⟩ := spans_rep_char hgap
    obtain ⟨-, sign, hmem, rfl⟩ := spans_choice (show Spans (choice "++" ["--"]) _ _ from hsign)
    rw [List.append_assoc]
    exact ⟨name, sign, .before hn hblank hmem⟩

theorem exists_isMutation_of_compound (h : Form.compound.matchStart? s = some m) :
    (∃ name value, IsMutation name s.toList value) ∧ (behindGap s.toList).head? ≠ some '=' := by
  obtain ⟨_, operand, _, _, hs, -, hspans, ⟨_, -, hany⟩⟩ :=
    spans_of_textEnd h (newline_not_mem_last hlast)
  obtain ⟨_, gap', _, _, rfl, -, hspans, -⟩ := hspans
  obtain ⟨_, _, _, _, rfl, -, hspans, hequal⟩ := hspans
  obtain ⟨_, _, _, _, rfl, -, hspans, ⟨_, -, hop⟩⟩ := hspans
  obtain ⟨_, gap, _, _, rfl, -, hspans, hgap⟩ := hspans
  obtain ⟨_, _, _, _, rfl, -, ⟨rfl, -⟩, ⟨_, -, hname⟩⟩ := hspans
  obtain ⟨name, hn, rfl⟩ := spans_name hname
  obtain ⟨-, hblank, -⟩ := spans_rep_char hgap
  obtain ⟨-, op, hmem, rfl⟩ :=
    spans_choice (show Spans (choice "+" ["-", "*", "/", "%", "~/", "??"]) _ _ from hop)
  obtain ⟨rfl, -⟩ := spans_lit hequal
  have htext : s.toList = name.toList ++ (gap ++ (op.toList ++ '=' :: (gap' ++ operand))) := by
    simpa using hs
  obtain ⟨c, hc, hb⟩ :=
    exists_not_isBlank_of_last (List.length_pos_iff.1 (spans_rep_char hany).1) (hs ▸ hlast)
  have hupdate : Update name (op.toList ++ '=' :: (gap' ++ operand)) _ :=
    .compound hmem ⟨c, List.mem_append_right _ hc, hb⟩
  obtain ⟨d, ds, hd, hsign, hne⟩ := exists_operator_head hmem ('=' :: (gap' ++ operand))
  rw [htext]
  refine ⟨⟨name, _, .assigned hn hblank hupdate⟩, ?_⟩
  rw [hd, behindGap_of_name hn hblank hsign]
  simpa using hne

/-- The pattern of an assignment up to the sign of equality. -/
def assignedName : Pattern := textStart ++ group 1 Pattern.name ++ blanks ++ lit "="

/-- The pattern of an assignment behind the sign of equality. -/
def assignedValue : Pattern := ahead false (oneOf "=>") ++ blanks ++ group 2 (many1 any) ++ textEnd

theorem exists_isMutation_of_assignment (h : Form.assignment.matchStart? s = some m) :
    ∃ name value, IsMutation name s.toList value := by
  obtain ⟨c, hrun, -⟩ := Option.map_eq_some_iff.1 h
  obtain ⟨ds, gs, rest, hs, hspans, hk⟩ := run_spans
    (show run assignedName ⟨[], s.toList, 0, []⟩ (fun c' => run assignedValue c' some) =
      some c from hrun)
  obtain ⟨_, _, _, _, rfl, -, hspans, hequal⟩ := hspans
  obtain ⟨_, gap, _, _, rfl, -, hspans, hgap⟩ := hspans
  obtain ⟨_, _, _, _, rfl, -, ⟨rfl, -⟩, ⟨_, -, hname⟩⟩ := hspans
  obtain ⟨name, hn, rfl⟩ := spans_name hname
  obtain ⟨-, hblank, -⟩ := spans_rep_char hgap
  obtain ⟨rfl, -⟩ := spans_lit hequal
  have htext : s.toList = name.toList ++ (gap ++ '=' :: rest) := by
    simpa using hs
  -- the texts that a pattern takes say nothing of what it looks ahead at
  have hnext : ∀ d ∈ rest.head?, d ≠ '=' ∧ d ≠ '>' := by
    intro d hd
    obtain ⟨es, rfl⟩ := List.head?_eq_some_iff.1 hd
    by_contra hsign
    have haccepts : "=>".toList.contains d = true := by
      rw [not_and_or, not_not, not_not] at hsign
      rcases hsign with rfl | rfl <;> decide
    have hrefuses : Refuses assignedValue (d :: es) :=
      (((refuses_ahead_false haccepts es).seq _).seq _).seq _
    cases (hrefuses _ _ _ _).symm.trans hk
  have hne : rest ≠ [] := by
    rintro rfl
    obtain ⟨_, _, _, hnil, hvalue, -⟩ := run_spans hk
    obtain ⟨_, _, _, _, rfl, -, ⟨_, value, _, _, rfl, -, -, ⟨_, -, hany⟩⟩, -⟩ := hvalue
    have hlen := congrArg List.length hnil
    have hpos := (spans_rep_char hany).1
    simp only [Cursor.after, List.length_nil, List.length_append] at hlen
    omega
  have hend : ∀ d ∈ (name.toList ++ (gap ++ ['=']) ++ rest).getLast?, isBlank d = false := by
    rw [htext] at hlast
    simpa using hlast
  have hvalue := exists_not_isBlank_of_last hne hend
  rw [htext]
  exact ⟨name, _, .assigned hn hblank (.plain hnext hvalue)⟩

end Spans

/-! ## Texts that the patterns take -/

section Takes

variable {name sign op s : String} {gap : List Char}

theorem takes_name (hn : IsIdent name) (rest : List Char)
    (hrest : ∀ d ∈ rest.head?, isNamePart d = false) :
    Takes Pattern.name name.toList rest [] := by
  obtain ⟨c, cs, hs, hc, hcs⟩ := hn
  rw [hs]
  exact (takes_char hc (cs ++ rest)).seq (takes_many hcs hrest)

theorem takes_gap (hgap : ∀ c ∈ gap, isBlank c = true) {c : Char} (hc : isBlank c = false)
    (ds : List Char) :
    Takes blanks gap (c :: ds) [] :=
  takes_many hgap (by rintro d ⟨⟩; exact hc)

/-- A name in front of a gap and a sign. -/
theorem takes_named (hn : IsIdent name) (hgap : ∀ c ∈ gap, isBlank c = true) {c : Char}
    (hc : isSign c = true) (ds : List Char) :
    Takes (group 1 Pattern.name ++ blanks) (name.toList ++ gap) (c :: ds) [(1, name.toList)] :=
  ((takes_name hn _ (not_isNamePart_of_gap hgap hc ds)).group 1).seq
    (takes_gap hgap (not_isBlank_of_isSign hc) ds)

theorem takes_sign (hsign : sign ∈ stepSigns) (rest : List Char) :
    Takes (choice "++" ["--"]) sign.toList rest [] := by
  have hapart : ∀ t ∈ stepSigns, ∀ u ∈ stepSigns, u ≠ t → differ u.toList t.toList = true := by
    decide
  exact takes_choice hsign (hapart sign hsign) rest

theorem takes_operator (hop : op ∈ compoundOperators) (rest : List Char) :
    Takes (choice "+" ["-", "*", "/", "%", "~/", "??"]) op.toList rest [] := by
  have hapart : ∀ t ∈ compoundOperators, ∀ u ∈ compoundOperators, u ≠ t →
      differ u.toList t.toList = true := by
    decide
  exact takes_choice hop (hapart op hop) rest

/-- A value is kept without the blanks in front of it. -/
theorem takes_value {value : List Char} (hvalue : ∃ c ∈ value, isBlank c = false) (i : Nat) :
    Takes (blanks ++ group i (many1 any)) value [] [(i, value.dropWhile isBlank)] := by
  obtain ⟨c, hc, hb⟩ := hvalue
  have hmem := mem_dropWhile hc hb
  have hblanks : Takes blanks (value.takeWhile isBlank) (value.dropWhile isBlank ++ []) [] := by
    refine takes_many (fun d hd => List.mem_takeWhile_imp hd) ?_
    rw [List.append_nil]
    intro d hd
    have hhead := List.head?_dropWhile_not isBlank value
    rw [show (value.dropWhile isBlank).head? = some d from hd] at hhead
    simpa using hhead
  have hany : Takes (many1 any) (value.dropWhile isBlank) [] [] :=
    takes_many1 (List.ne_nil_of_mem hmem) (by simp) (by simp)
  have htakes := hblanks.seq (hany.group i)
  rwa [List.takeWhile_append_dropWhile] at htakes

theorem stepped_matchStart? (h : Stepped name sign s.toList) :
    ∃ m, Form.stepped.matchStart? s = some m ∧
    (m.group? 1).getD (m.get 4) = name ∧ (m.group? 2).getD (m.get 3) = sign := by
  generalize hs : s.toList = cs at h
  cases h with
  | @before gap hn hgap hsign =>
    -- the first alternative starts with a name, and the text does not
    have hrefuses : Refuses (group 1 Pattern.name ++ blanks ++ group 2 (choice "++" ["--"]))
        (sign.toList ++ gap ++ name.toList ++ []) := by
      obtain ⟨c, ds, hc, hmark⟩ := exists_step_head hsign (gap ++ name.toList)
      rw [List.append_nil, List.append_assoc, hc]
      refine (((refuses_char ?_).seq _ |>.group 1).seq _).seq _
      rintro d ⟨⟩
      by_contra hstart
      rw [Bool.not_eq_false] at hstart
      cases (isNamePart_of_isNameStart hstart).symm.trans (not_isNamePart_of_isSign hmark)
    have hblanks : Takes blanks gap (name.toList ++ []) [] := by
      obtain ⟨c, cs, hs, hc, -⟩ := hn
      rw [hs]
      exact takes_gap hgap (not_isBlank_of_isNameStart hc) _
    have hbefore :=
      (((takes_sign hsign _).group 3).seq hblanks).seq ((takes_name hn [] (by simp)).group 4)
    have hopens :=
      ((opens_textStart _).seq (takes_orElse_of_refuses (q := fun _ => _) hrefuses hbefore)).seq
      takes_textEnd
    refine ⟨_, matchStart?_of_opens (by simpa using hs) hopens, ?_, ?_⟩ <;>
      simp [Match.get, Match.group?, List.lookup_cons]
  | @behind gap hn hgap hsign =>
    obtain ⟨c, ds, hc, hmark⟩ := exists_step_head hsign []
    have hnamed := takes_named hn hgap hmark ds
    rw [← hc] at hnamed
    have hbehind := (hnamed.seq ((takes_sign hsign []).group 2)).orElse
      fun _ => group 3 (choice "++" ["--"]) ++ blanks ++ group 4 Pattern.name
    have hopens := ((opens_textStart _).seq hbehind).seq takes_textEnd
    refine ⟨_, matchStart?_of_opens (by simpa using hs) hopens, ?_, ?_⟩ <;>
      simp [Match.group?, List.lookup_cons]

theorem compound_matchStart? {operand : List Char} (hn : IsIdent name)
    (hgap : ∀ c ∈ gap, isBlank c = true) (hop : op ∈ compoundOperators)
    (hoperand : ∃ c ∈ operand, isBlank c = false)
    (hs : s.toList = name.toList ++ (gap ++ (op.toList ++ '=' :: operand))) :
    ∃ m, Form.compound.matchStart? s = some m ∧ m.get 1 = name ∧ m.get 2 = op ∧
      m.get 3 = String.ofList (operand.dropWhile isBlank) := by
  obtain ⟨c, ds, hc, hsign, -⟩ := exists_operator_head hop ("=".toList ++ (operand ++ []))
  have hnamed := takes_named hn hgap hsign ds
  rw [← hc] at hnamed
  have hopens := (((((opens_textStart _).seq hnamed).assoc.seq ((takes_operator hop _).group 2)).seq
    (takes_lit "=" _)).seq (takes_value hoperand 3)).assoc.seq takes_textEnd
  refine ⟨_, matchStart?_of_opens (by simpa using hs) hopens, ?_, ?_, ?_⟩ <;>
    simp [Match.get, Match.group?, List.lookup_cons]

theorem assignment_matchStart? {value : List Char} (hn : IsIdent name)
    (hgap : ∀ c ∈ gap, isBlank c = true) (hnext : ∀ c ∈ value.head?, c ≠ '=' ∧ c ≠ '>')
    (hvalue : ∃ c ∈ value, isBlank c = false)
    (hs : s.toList = name.toList ++ (gap ++ '=' :: value)) :
    ∃ m, Form.assignment.matchStart? s = some m ∧ m.get 1 = name ∧
      m.get 2 = String.ofList (value.dropWhile isBlank) := by
  have hnamed : Takes (group 1 Pattern.name ++ blanks) (name.toList ++ gap)
      ("=".toList ++ (value ++ []))
      [(1, name.toList)] := takes_named hn hgap (by decide) (value ++ [])
  have hahead : Takes (ahead false (oneOf "=>")) [] (value ++ []) [] := by
    refine takes_ahead_false (refuses_char fun d hd => ?_)
    rw [List.append_nil] at hd
    obtain ⟨hequal, harrow⟩ := hnext d hd
    simp [hequal, harrow]
  have hopens := (((((opens_textStart _).seq hnamed).assoc.seq (takes_lit "=" _)).seq_nil
    hahead).seq (takes_value hvalue 2)).assoc.seq takes_textEnd
  refine ⟨_, matchStart?_of_opens (by simpa using hs) hopens, ?_, ?_⟩ <;>
    simp [Match.get, Match.group?, List.lookup_cons]

end Takes

/-! ## Statements -/

/-- The text of a statement, without the blanks around it and the semicolons behind it. -/
def statementText (s : String) : String := trim (trimEndChar ';' (trim s))

section Statements

variable {name value s m : String}

theorem not_isBlank_last_statementText (s : String) :
    ∀ c ∈ (statementText s).toList.getLast?, isBlank c = false := by
  rw [statementText, trim, String.toList_ofList]
  exact fun _ => not_isBlank_of_getLast?_trimChars

theorem normalizeMutation_of_isMutation (h : IsMutation name (statementText s).toList value) :
    normalizeMutation s = some (name, assign name value) := by
  have hlast := not_isBlank_last_statementText s
  have hstepped (hequal : '=' ∈ (statementText s).toList) :
      Form.stepped.matchStart? (statementText s) = none := by
    refine Option.eq_none_iff_forall_ne_some.2 fun m hm => ?_
    obtain ⟨name, sign, hstep⟩ := exists_stepped hlast hm
    exact hstep.equal_not_mem hequal
  unfold normalizeMutation
  rw [← statementText]
  dsimp only
  generalize htext : (statementText s).toList = text at h
  cases h with
  | stepped h =>
    obtain ⟨m, hm, hname, hsign⟩ := stepped_matchStart? (htext ▸ h)
    rw [hm]
    simp only [hname, hsign, assign, steppedValue, String.append_assoc]
  | assigned hn hgap h =>
    have hequal : '=' ∈ (statementText s).toList := by
      rw [htext]
      exact List.mem_append_right _ (List.mem_append_right _ h.equal_mem)
    rw [hstepped hequal]
    dsimp only
    cases h with
    | compound hop hoperand =>
      obtain ⟨m, hm, hname, hsign, hvalue⟩ := compound_matchStart? hn hgap hop hoperand htext
      rw [hm]
      simp only [hname, hsign, hvalue, trim_dropWhile, assign, operandText, String.append_assoc]
    | plain hnext hplain =>
      have hcompound : Form.compound.matchStart? (statementText s) = none := by
        refine Option.eq_none_iff_forall_ne_some.2 fun m hm => ?_
        refine (exists_isMutation_of_compound hlast hm).2 ?_
        rw [htext, behindGap_of_name hn hgap (by decide)]
        rfl
      obtain ⟨m, hm, hname, hvalue⟩ := assignment_matchStart? hn hgap hnext hplain htext
      rw [hcompound, hm]
      simp only [Option.map_some, hname, hvalue, trim_dropWhile, assign]

theorem exists_isMutation (h : (normalizeMutation s).isSome = true) :
    ∃ name value, IsMutation name (statementText s).toList value := by
  have hlast := not_isBlank_last_statementText s
  unfold normalizeMutation at h
  rw [← statementText] at h
  dsimp only at h
  split at h
  · next m hm =>
    obtain ⟨name, sign, hstep⟩ := exists_stepped hlast hm
    exact ⟨name, _, .stepped hstep⟩
  · split at h
    · next m hm => exact (exists_isMutation_of_compound hlast hm).1
    · rw [Option.isSome_map] at h
      obtain ⟨m, hm⟩ := Option.isSome_iff_exists.1 h
      exact exists_isMutation_of_assignment hlast hm

/-- A statement is kept as an assignment if its text changes a name, and only then. -/
theorem normalizeMutation_eq_some_iff : normalizeMutation s = some (name, m) ↔
    ∃ value, IsMutation name (statementText s).toList value ∧ m = assign name value := by
  constructor
  · intro h
    obtain ⟨name', value, hmutation⟩ := exists_isMutation (by rw [h]; rfl)
    -- the text changes one name only, for the function has one value
    have heq := (normalizeMutation_of_isMutation hmutation).symm.trans h
    cases heq
    exact ⟨value, hmutation, rfl⟩
  · rintro ⟨value, hmutation, rfl⟩
    exact normalizeMutation_of_isMutation hmutation

end Statements

end WidgetBridge.State
