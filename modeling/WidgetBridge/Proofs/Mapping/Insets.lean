import WidgetBridge.Proofs.Assoc
import WidgetBridge.Proofs.Mapping.Backward
import WidgetBridge.Proofs.Mapping.Calls

/-!
# Insets by axis

On the way back `EdgeInsets.symmetric(..)` becomes a list of two numbers, whatever its arguments are
(`applyInsets_symmetric`): the reader searches the arguments for a name with a number behind it.  On
a list of arguments with decimal numbers (`Arguments`) these are the numbers that are written there;
an argument of any other kind gives zero, or the number that it starts with
(`applyInsets_identifier`).
-/

namespace WidgetBridge.Mapping

open WidgetBridge.Text WidgetBridge.Number Pattern

/-! ## Arguments with numbers -/

/-- A name, a colon and a decimal number, with any blanks between them. -/
def NamedNumber (name : String) (v : Value) (cs : List Char) : Prop :=
  ∃ gap gap' num, cs = name.toList ++ gap ++ ":".toList ++ gap' ++ num ∧ name ≠ "" ∧
    (∀ c ∈ name.toList, isWord c = true) ∧ (∀ c ∈ gap ++ gap', isBlank c = true) ∧ IsNumeral num ∧
    parseNumber (String.ofList num) = .ok v

theorem NamedNumber.ne_nil {name : String} {v : Value} {cs : List Char}
    (h : NamedNumber name v cs) : cs ≠ [] := by
  obtain ⟨gap, gap', num, rfl, hne, -⟩ := h
  simp

/-- Arguments that are all named decimal numbers, with commas between them, blanks anywhere, and
possibly a comma at the end. -/
inductive Arguments : Assoc Value → List Char → Prop
  | blank {gap : List Char} (h : ∀ c ∈ gap, isBlank c = true) : Arguments [] gap
  | last {name : String} {v : Value} {gap cs gap' : List Char}
      (hgap : ∀ c ∈ gap ++ gap', isBlank c = true)
      (h : NamedNumber name v cs) : Arguments [(name, v)] (gap ++ (cs ++ gap'))
  | more {name : String} {v : Value} {gap cs gap' rest : List Char} {args : Assoc Value}
      (hgap : ∀ c ∈ gap ++ gap', isBlank c = true) (h : NamedNumber name v cs)
        (hrest : Arguments args rest) :
      Arguments ((name, v) :: args) (gap ++ (cs ++ (gap' ++ ',' :: rest)))

/-- The value that a number with a name in front has somewhere in a text. -/
def StandsIn (source : List Char) (name : String) (v : Value) : Prop :=
  ∃ as cs bs, source = as ++ (cs ++ bs) ∧ NamedNumber name v cs

/-! ## The named numbers that are found -/

/-- The name and the number that a match of `Form.namedNumber` keeps. -/
def pairOf (gs : Groups) : String × String :=
  (((gs.lookup 1).map String.ofList).getD "", ((gs.lookup 2).map String.ofList).getD "")

/-- Notes the number that a match keeps under its name. -/
def putNumber (acc : Assoc Value) (gs : Groups) : Attempt (Assoc Value) := do
  return acc.put (pairOf gs).1 (← parseNumber (pairOf gs).2)

theorem namedNumbers_eq (args : String) :
    namedNumbers args = ((Form.namedNumber.findAll args).map (·.groups)).foldlM putNumber [] := by
  rw [List.foldlM_map]
  rfl

theorem putNumber_eq_ok {acc acc' : Assoc Value} {gs : Groups} (h : putNumber acc gs = .ok acc') :
    ∃ v, parseNumber (pairOf gs).2 = .ok v ∧ acc' = acc.put (pairOf gs).1 v := by
  unfold putNumber at h
  cases hv : parseNumber (pairOf gs).2 with
  | error e =>
    rw [hv] at h
    cases h
  | ok v =>
    rw [hv] at h
    cases h
    exact ⟨v, rfl, rfl⟩

/-- What is noted under a name was there before or comes from a match. -/
theorem get?_foldlM_putNumber {gss : List Groups} {acc named : Assoc Value}
    (h : gss.foldlM putNumber acc = .ok named) {name : String} {v : Value}
    (hv : named.get? name = some v) :
    acc.get? name = some v ∨ ∃ gs ∈ gss, (pairOf gs).1 = name ∧
      parseNumber (pairOf gs).2 = .ok v := by
  induction gss generalizing acc with
  | nil =>
    cases h
    exact .inl hv
  | cons gs gss ih =>
    rw [List.foldlM_cons] at h
    cases hacc : putNumber acc gs with
    | error e =>
      rw [hacc] at h
      cases h
    | ok acc' =>
      rw [hacc] at h
      obtain ⟨w, hw, rfl⟩ := putNumber_eq_ok hacc
      rcases ih h with hget | ⟨gs', hmem, hgs'⟩
      · rw [Assoc.get?_put] at hget
        split_ifs at hget with hname
        · cases hget
          exact .inr ⟨gs, List.mem_cons_self, hname.symm, hw⟩
        · exact .inl hget
      · exact .inr ⟨gs', List.mem_cons_of_mem _ hmem, hgs'⟩

theorem spans_namedNumber {cs : List Char} {gs : Groups} (h : Spans Form.namedNumber cs gs) :
    ∃ v, NamedNumber (pairOf gs).1 v cs ∧ parseNumber (pairOf gs).2 = .ok v := by
  obtain ⟨_, _, _, _, rfl, rfl, h, hs, rfl, hnum⟩ := h
  obtain ⟨_, gap', _, _, rfl, rfl, h, hgap'⟩ := h
  obtain ⟨_, _, _, _, rfl, rfl, h, hcolon⟩ := h
  obtain ⟨_, gap, _, _, rfl, rfl, ⟨_, rfl, hname⟩, hgap⟩ := h
  obtain ⟨rfl, rfl⟩ := spans_lit hcolon
  obtain ⟨hlen, hword, rfl⟩ := spans_rep_char hname
  obtain ⟨-, hb, rfl⟩ := spans_rep_char hgap
  obtain ⟨-, hb', rfl⟩ := spans_rep_char hgap'
  obtain ⟨hnumeral, rfl⟩ := isNumeral_of_spans hnum
  obtain ⟨v, hv⟩ := hnumeral.readable
  refine ⟨v, ⟨gap, gap', _, ?_, ?_, ?_, List.forall_mem_append.2 ⟨hb, hb'⟩, hnumeral, hv⟩, ?_⟩
  · simp [pairOf, List.lookup_cons]
  · simpa [pairOf, List.lookup_cons] using List.length_pos_iff.1 hlen
  · simpa [pairOf, List.lookup_cons] using hword
  · simpa [pairOf, List.lookup_cons] using hv

/-- Every number that is noted stands behind its name in the arguments. -/
theorem standsIn_of_namedNumbers {args name : String} {named : Assoc Value} {v : Value}
    (h : namedNumbers args = .ok named) (hv : named.get? name = some v) :
    StandsIn args.toList name v := by
  rw [namedNumbers_eq] at h
  rcases get?_foldlM_putNumber h hv with hnil | ⟨gs, hgs, rfl, hparse⟩
  · cases hnil
  · obtain ⟨m, hm, rfl⟩ := List.mem_map.1 hgs
    obtain ⟨as, es, before, position, hargs, hmatch⟩ := exists_matchAt?_of_mem hm
    obtain ⟨hes, hspans⟩ := matchAt?_spans hmatch
    obtain ⟨w, hnamed, hw⟩ := spans_namedNumber hspans
    obtain rfl : v = w := Except.ok.inj (hparse.symm.trans hw)
    exact ⟨as, m.text, m.after, by rw [hargs, hes], hnamed⟩

/-! ## Arguments read back -/

theorem refuses_namedNumber {c : Char} (hc : isWord c = false) (rest : List Char) :
    Refuses Form.namedNumber (c :: rest) := by
  have hword : Refuses word (c :: rest) := refuses_char (by rintro d ⟨⟩; exact hc)
  exact fun before position groups k => hword before position groups _

theorem passes_namedNumber {cs : List Char} (h : ∀ c ∈ cs, isWord c = false) :
    Passes Form.namedNumber cs :=
  passes_of_forall fun c hc rest => refuses_namedNumber (h c hc) rest

theorem not_isWord_of_blanks {gap : List Char} (h : ∀ c ∈ gap, isBlank c = true) :
    ∀ c ∈ gap, isWord c = false :=
  fun c hc => not_isWord_of_isBlank (h c hc)

theorem takes_namedNumber {name : String} {v : Value} {cs rest : List Char}
    (h : NamedNumber name v cs) (hrest : EndsNumeral rest) :
    ∃ gs, (pairOf gs).1 = name ∧ parseNumber (pairOf gs).2 = .ok v ∧
      Takes Form.namedNumber cs rest gs := by
  obtain ⟨gap, gap', num, rfl, hne, hword, hgaps, hnum, hparse⟩ := h
  obtain ⟨hgap, hgap'⟩ := List.forall_mem_append.1 hgaps
  have hname : Takes words1 name.toList (gap ++ (":".toList ++ (gap' ++ (num ++ rest)))) [] := by
    refine takes_many1 (by simpa using hne) hword fun d hd => ?_
    cases gap with
    | nil =>
      cases hd
      decide
    | cons c cs =>
      cases hd
      exact not_isWord_of_isBlank (hgap _ List.mem_cons_self)
  have hcolon : Takes blanks gap (":".toList ++ (gap' ++ (num ++ rest))) [] :=
    takes_many hgap (by rintro d ⟨⟩; decide)
  have hspace : Takes blanks gap' (num ++ rest) [] := by
    refine takes_many hgap' fun d hd => ?_
    rw [List.head?_append_of_ne_nil _ hnum.ne_nil] at hd
    exact hnum.not_isBlank d (List.mem_of_mem_head? hd)
  refine ⟨[(2, num), (1, name.toList)], ?_, ?_,
    ((((hname.group 1).seq hcolon).seq (takes_lit ":" _)).seq hspace).seq
    ((takes_number hnum hrest).group 2)⟩
  · simp [pairOf, List.lookup_cons]
  · simpa [pairOf, List.lookup_cons] using hparse

/-- The matches in a list of arguments are the arguments. -/
theorem Arguments.finds {args : Assoc Value} {cs lead : List Char} (h : Arguments args cs)
    (hlead : ∀ c ∈ lead, isWord c = false) : ∃ gss, Finds Form.namedNumber (lead ++ cs) gss ∧
      ∀ acc, gss.foldlM putNumber acc = .ok (args.foldl (fun m e => m.put e.1 e.2) acc) := by
  induction h generalizing lead with
  | @blank gap h =>
    exact ⟨[],
      .last (passes_namedNumber (List.forall_mem_append.2 ⟨hlead, not_isWord_of_blanks h⟩)),
      fun acc => rfl⟩
  | @last name v gap cs gap' hgap h =>
    obtain ⟨hgap, hgap'⟩ := List.forall_mem_append.1 hgap
    have hends : EndsNumeral (gap' ++ []) := endsNumeral_of_blank hgap' nofun
    rw [List.append_nil] at hends
    obtain ⟨gs, hpair, hparse, htakes⟩ := takes_namedNumber h hends
    have hbefore := passes_namedNumber (List.forall_mem_append.2 ⟨hlead, not_isWord_of_blanks hgap⟩)
    refine ⟨[gs], ?_, fun acc => ?_⟩
    · rw [← List.append_assoc]
      exact .next hbefore h.ne_nil htakes (.last (passes_namedNumber (not_isWord_of_blanks hgap')))
    · rw [List.foldlM_cons, putNumber, hpair, hparse]
      rfl
  | @more name v gap cs gap' rest args hgap h hrest ih =>
    obtain ⟨hgap, hgap'⟩ := List.forall_mem_append.1 hgap
    obtain ⟨gs, hpair, hparse, htakes⟩ :=
      takes_namedNumber h (endsNumeral_of_blank hgap' (endsNumeral_stop (.inl rfl) rest))
    have hbefore := passes_namedNumber (List.forall_mem_append.2 ⟨hlead, not_isWord_of_blanks hgap⟩)
    have hafter : ∀ c ∈ gap' ++ [','], isWord c = false :=
      List.forall_mem_append.2 ⟨not_isWord_of_blanks hgap', List.forall_mem_singleton.2 (by decide)⟩
    obtain ⟨gss, hfinds, hfold⟩ := ih hafter
    refine ⟨gs :: gss, ?_, fun acc => ?_⟩
    · rw [List.append_assoc] at hfinds
      rw [← List.append_assoc]
      exact .next hbefore h.ne_nil htakes hfinds
    · rw [List.foldlM_cons, putNumber, hpair, hparse]
      exact hfold _

theorem Arguments.namedNumbers {args : Assoc Value} {source : String}
    (h : Arguments args source.toList) :
    namedNumbers source = .ok (Assoc.ofPairs args) := by
  obtain ⟨gss, hfinds, hfold⟩ := h.finds (List.forall_mem_nil _)
  rw [namedNumbers_eq, hfinds.map_findAll fun before position groups k => rfl, hfold]
  rfl

/-- The arguments that are written for two integers. -/
def axes (vertical horizontal : Int) : String :=
  "vertical: " ++ showInt vertical ++ ", horizontal: " ++ showInt horizontal

theorem namedNumber_showInt {name : String} (hne : name ≠ "")
    (hword : ∀ c ∈ name.toList, isWord c = true) (i : Int) :
    NamedNumber name (.int i) (name.toList ++ [] ++ ":".toList ++ [' '] ++ (showInt i).toList) :=
  ⟨[], [' '], (showInt i).toList, rfl, hne, hword, forall_mem_of_all (by decide),
  isNumeral_showInt i, by
    rw [String.ofList_toList, parseNumber_showInt]⟩

theorem arguments_axes (vertical horizontal : Int) :
    Arguments [("vertical", .int vertical), ("horizontal", .int horizontal)]
      (axes vertical horizontal).toList := by
  have hvertical : NamedNumber "vertical" (.int vertical) _ :=
    namedNumber_showInt (by decide) (forall_mem_of_all (by decide)) vertical
  have hhorizontal : NamedNumber "horizontal" (.int horizontal) _ :=
    namedNumber_showInt (by decide) (forall_mem_of_all (by decide)) horizontal
  have hgap : ∀ c ∈ [] ++ [], isBlank c = true := nofun
  have hspace : ∀ c ∈ [' '] ++ [], isBlank c = true := forall_mem_of_all (by decide)
  have hargs := Arguments.more hgap hvertical (.last hspace hhorizontal)
  refine Eq.mp (congrArg _ ?_) hargs
  unfold axes
  simp

/-! ## Insets by axis -/

/-- The source of insets by axis. -/
def symmetric (args : String) : String := "EdgeInsets.symmetric(" ++ args ++ ")"

theorem toList_symmetric (args : String) :
    (symmetric args).toList = "EdgeInsets.symmetric(".toList ++ (args.toList ++ ")".toList) := by
  unfold symmetric
  rw [String.toList_append, String.toList_append, List.append_assoc]

theorem stripConst_symmetric (args : String) : stripConst (symmetric args) = symmetric args := by
  refine stripConst_eq_self (c := 'E') ?_ (getLast?_close _) (by decide)
  rw [toList_symmetric]
  rfl

theorem symmetric_matchStart? (args : String) :
    ∃ m, Form.insetsSymmetric.matchStart? (symmetric args) = some m ∧ m.get 1 = args := by
  have hargs : Takes (group 1 (many any) ++ (lit ")" ++ textEnd)) (args.toList ++ ")".toList) []
      [(1, args.toList)] := by
    refine takes_many_last (fun _ _ => rfl) ((takes_lit ")" []).seq takes_textEnd)
      (fun fs hfs => ?_) 1
    have hlen : fs.length < 1 := hfs
    obtain rfl : fs = [] := List.length_eq_zero_iff.1 (by omega)
    exact (refuses_nil_lit (by decide)).seq _
  have hopens : Opens Form.insetsSymmetric
      ("EdgeInsets.symmetric(".toList ++ (args.toList ++ ")".toList)) []
      [(1, args.toList)] :=
    ((opens_textStart _).seq (takes_lit "EdgeInsets.symmetric(" _)).seq hargs |>.assoc.assoc
  refine ⟨_, matchStart?_of_opens (by simp [toList_symmetric]) hopens, ?_⟩
  simp [Match.get, Match.group?]

/-- The other constructors of insets do not match. -/
theorem applyInsets_of_namedNumbers {args : String} {named : Assoc Value}
    (h : namedNumbers args = .ok named) :
    applyInsets .backward (.expr (symmetric args)) =
      .ok (.literal (.list [(named.get? "vertical").getD (.int 0),
      (named.get? "horizontal").getD (.int 0)])) := by
  have hs := toList_symmetric args
  have hzero : (symmetric args == "EdgeInsets.zero") = false :=
    beq_eq_false_iff_ne.2 (ne_of_differ hs (by decide))
  have hall : Form.insetsAll.matchStart? (symmetric args) = none := oneNumber_eq_none hs (by decide)
  have hsides : Form.insetsSides.matchStart? (symmetric args) = none :=
    fourNumbers_eq_none hs (by decide)
  obtain ⟨m, hm, hone⟩ := symmetric_matchStart? args
  unfold applyInsets insetsBackward
  simp only [stripConst_symmetric, hzero, Bool.false_eq_true, if_false, hall, hsides, hm, hone, h]
  rfl

/-- The last value of a name among arguments, and zero without one. -/
def lastOf (args : Assoc Value) (name : String) : Value :=
  ((Assoc.ofPairs args).get? name).getD (.int 0)

/-- Insets by axis always become two numbers.  Each is zero or a number that stands behind the name
of its axis; for arguments that are all decimal numbers they are the last ones of their names. -/
theorem applyInsets_symmetric (args : String) : ∃ vertical horizontal,
    applyInsets .backward (.expr (symmetric args)) = .ok (.literal (.list [vertical, horizontal])) ∧
    (vertical = .int 0 ∨ StandsIn args.toList "vertical" vertical) ∧
    (horizontal = .int 0 ∨ StandsIn args.toList "horizontal" horizontal) ∧
    ∀ pairs, Arguments pairs args.toList →
      vertical = lastOf pairs "vertical" ∧ horizontal = lastOf pairs "horizontal" := by
  obtain ⟨named, hnamed⟩ := exists_namedNumbers args
  have hstands (name : String) : (named.get? name).getD (.int 0) = .int 0 ∨
      StandsIn args.toList name ((named.get? name).getD (.int 0)) := by
    cases hv : named.get? name with
    | none => exact .inl rfl
    | some v => exact .inr (standsIn_of_namedNumbers hnamed hv)
  refine ⟨(named.get? "vertical").getD (.int 0), (named.get? "horizontal").getD (.int 0),
    applyInsets_of_namedNumbers hnamed, hstands "vertical", hstands "horizontal",
    fun pairs hpairs => ?_⟩
  obtain rfl : named = Assoc.ofPairs pairs := Except.ok.inj (hnamed.symm.trans hpairs.namedNumbers)
  exact ⟨rfl, rfl⟩

theorem applyInsets_symmetric_axes : ∃ vertical horizontal,
    applyInsets .backward (.expr (symmetric (axes 8 (-4)))) =
      .ok (.literal (.list [vertical, horizontal])) ∧
    Arguments [("vertical", .int 8), ("horizontal", .int (-4))] (axes 8 (-4)).toList ∧
    vertical = .int 8 ∧ horizontal = .int (-4) := by
  obtain ⟨vertical, horizontal, happly, -, -, hplain⟩ := applyInsets_symmetric (axes 8 (-4))
  obtain ⟨rfl, rfl⟩ := hplain _ (arguments_axes 8 (-4))
  exact ⟨_, _, happly, arguments_axes 8 (-4), rfl, rfl⟩

theorem Arguments.exists_isDecimal {pairs : Assoc Value} {cs : List Char} (h : Arguments pairs cs) :
    (∀ c ∈ cs, isBlank c = true) ∨ ∃ c ∈ cs, isDecimal c = true := by
  have hnamed {name : String} {v : Value} {as ds bs : List Char} (h : NamedNumber name v ds) :
      ∃ c ∈ as ++ (ds ++ bs), isDecimal c = true := by
    obtain ⟨gap, gap', num, rfl, -, -, -, hnum, -⟩ := h
    obtain ⟨c, hc, hdecimal⟩ := hnum.exists_isDecimal
    exact ⟨c, by simp [hc], hdecimal⟩
  cases h with
  | blank h => exact .inl h
  | last hgap h => exact .inr (hnamed h)
  | more hgap h hrest => exact .inr (hnamed h)

/-- An argument that is no number counts as zero. -/
theorem applyInsets_identifier :
    applyInsets .backward (.expr (symmetric "vertical: gap")) =
      .ok (.literal (.list [.int 0, .int 0])) ∧
    ¬ ∃ pairs, Arguments pairs "vertical: gap".toList := by
  have hnone : namedNumbers "vertical: gap" = .ok [] := by
    have hempty : (Form.namedNumber.findAll "vertical: gap").isEmpty = true := by decide +kernel
    rw [namedNumbers_eq, List.isEmpty_iff.1 hempty]
    rfl
  refine ⟨applyInsets_of_namedNumbers hnone, fun ⟨pairs, hpairs⟩ => ?_⟩
  rcases hpairs.exists_isDecimal with hblank | ⟨c, hc, hdecimal⟩
  · exact absurd (hblank 'v' (by decide)) (by decide)
  · exact absurd hdecimal (forall_mem_of_all (p := fun c => ¬ isDecimal c = true) (by decide) c hc)

end WidgetBridge.Mapping
