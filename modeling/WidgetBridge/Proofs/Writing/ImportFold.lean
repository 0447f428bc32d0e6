import Mathlib.Tactic.MkIffOfInductiveProp
import WidgetBridge.Proofs.ComponentGrammar.ImportReading
import WidgetBridge.Proofs.Writing.ImportBlock

/-!
# Import statements through the table

Import statements that a document declares are folded into the table of imports, and the import
block prints the table.  `Holds` says what a table binds, in the terms of the statements.  A
statement that is taken in adds what it binds (`holds_of_taken`), all statements together bind what
they bound one by one (`holds_carryDeclarations`), and the import block binds what the table holds
(`binds_importLines`).

The table has one default for each module, it knows no types, and it takes modules as they are
written.  So this is said of statements that fit the table (`ImportForm.Fits`) and agree on the
defaults of their modules (`OneDefault`).
-/

namespace WidgetBridge.Writing

open WidgetBridge.Text WidgetBridge.ComponentGrammar

/-! ## The parts of a statement -/

/-- What is bound by a statement with a default and names. -/
@[mk_iff]
inductive OfParts (module : Attempt String) (main? : Option String) (names : List String) :
    Bound → Prop
  | effect : OfParts module main? names ⟨module, .effect, []⟩
  | main {name : String} (h : main? = some name) : OfParts module main? names
    ⟨module, .main, [.word name.toList]⟩
  | name {name : String} {spec : List Token} (h : name ∈ names) (hlaid : Laid spec name.toList) :
    OfParts module main? names ⟨module, .name, spec⟩

/-- Names that can stand in a statement. -/
structure ArePrintable (main? : Option String) (names : List String) : Prop where
  main : ∀ name, main? = some name → (Token.word name.toList).IsAt []
  names : ∀ name ∈ names, ∃ spec, IsSpec spec ∧ Laid spec name.toList

section Parts

variable {f : ImportForm} {main? : Option String} {names : List String} {b : Bound} {text : String}

/-- A specifier in a list of texts is laid out as one of them. -/
theorem mem_specs_of_areLaid {specs : List (List Token)} (h : AreLaid specs names)
    {spec : List Token} :
    spec ∈ specs ↔ ∃ name ∈ names, Laid spec name.toList := by
  induction h with
  | nil => simp
  | @cons spec' name specs names hfirst _ ih =>
    rw [List.mem_cons, ih, List.exists_mem_cons_iff]
    exact or_congr_left ⟨fun h => h ▸ hfirst, fun h => h.unique hfirst⟩

theorem mem_bindings_of_keeps {main? : Option (List Char)} (h : f.clause.Keeps main? names) :
    b ∈ f.bindings ↔
      OfParts (decodeString (String.ofList f.module)) (main?.map String.ofList) names b := by
  obtain ⟨clause, module⟩ := f
  have hnames {specs : List (List Token)} (h : AreLaid specs names) (kind : ImportKind) :
      b ∈ specs.map (Bound.mk (decodeString (String.ofList module)) kind) ↔
        ∃ name spec, name ∈ names ∧ Laid spec name.toList ∧
          b = ⟨decodeString (String.ofList module), kind, spec⟩ := by
    simp only [List.mem_map, mem_specs_of_areLaid h]
    constructor
    · rintro ⟨spec, ⟨name, hname, hlaid⟩, rfl⟩
      exact ⟨name, spec, hname, hlaid, rfl⟩
    · rintro ⟨name, spec, hname, hlaid, rfl⟩
      exact ⟨spec, ⟨name, hname, hlaid⟩, rfl⟩
  rw [ofParts_iff, ImportForm.bindings]
  cases h with
  | nothing => simp
  | main name => simp
  | names h => simp [hnames h]
  | both name h => simp [hnames h]

end Parts

/-! ## Printed statements -/

section Printed

variable {names : List String} {ts : List Token} {cs : List Char} {main? : Option String}

/-- Names with commas between them, as they are printed. -/
theorem listed_join (hne : names ≠ [])
    (h : ∀ name ∈ names, ∃ spec, IsSpec spec ∧ Laid spec name.toList) :
    ∃ specs ts, AreLaid specs names ∧ Listed specs ts ∧ Laid ts (join ", " names).toList := by
  induction names with
  | nil => exact absurd rfl hne
  | cons name names ih =>
    rw [List.forall_mem_cons] at h
    obtain ⟨⟨spec, hspec, hlaid⟩, hnames⟩ := h
    cases names with
    | nil => exact ⟨[spec], spec, .cons hlaid .nil, .last hspec, hlaid⟩
    | cons next names =>
      obtain ⟨specs, ts, hspecs, hlisted, hts⟩ := ih (List.cons_ne_nil _ _) hnames
      refine ⟨spec :: specs, spec ++ .mark ',' :: ts, .cons hlaid hspecs, .next hspec hlisted, ?_⟩
      have hjoin : (join ", " (name :: next :: names)).toList =
          name.toList ++ ',' :: ' ' :: (join ", " (next :: names)).toList := by
        simp [join]
      rw [hjoin]
      exact hlaid.append (hts.space.mark rfl) (by simp; decide)

/-- A word with a space behind it. -/
theorem laid_word {w : List Char} (hw : (Token.word w).IsAt []) (h : Laid ts cs) :
    Laid (.word w :: ts) (w ++ ' ' :: cs) :=
  Laid.token (t := .word w) ⟨hw.1, hw.2.1, by simp; decide⟩ h.space

/-- A word with a comma behind it. -/
theorem laid_word_comma {w : List Char} (hw : (Token.word w).IsAt []) (h : Laid ts cs) :
    Laid (.word w :: .mark ',' :: ts) (w ++ ',' :: cs) :=
  Laid.token (t := .word w) ⟨hw.1, hw.2.1, by simp; decide⟩ (h.mark rfl)

/-- What stands for a character can stand between double quotes. -/
theorem enclosed_of_stands {c : Char} (h : Stands c cs) {rest : List Char}
    (hrest : Enclosed '"' rest) :
    Enclosed '"' (cs ++ rest) := by
  cases h with
  | bare hquote hslash hline =>
    refine .plain hquote hslash ?_ hrest
    rintro rfl
    simp at hline
  | marked he h => exact .escaped hrest
  | @numbered a b ha hb h =>
    have hhex {d : Char} (hd : isHexDigit d = true) {ds : List Char} (hds : Enclosed '"' ds) :
        Enclosed '"' (d :: ds) := by
      refine .plain ?_ ?_ ?_ hds <;> rintro rfl <;> cases hd
    exact .escaped (hhex (d := '0') rfl (hhex (d := '0') rfl (hhex ha (hhex hb hrest))))

theorem enclosed_flatMap (cs : List Char) : Enclosed '"' (cs.flatMap escapeChar) := by
  induction cs with
  | nil => exact .nil
  | cons c cs ih =>
    rw [List.flatMap_cons]
    exact enclosed_of_stands (stands_escapeChar c) ih

/-- The module at the end of a printed statement. -/
theorem laid_module (module : String) :
    Laid [.quoted (string module).toList, .mark ';'] ((string module).toList ++ [';']) := by
  have hend : Laid [.mark ';'] [';'] := Laid.mark rfl (.nil (List.forall_mem_nil _))
  exact Laid.token (t := .quoted (string module).toList)
    ⟨'"', module.toList.flatMap escapeChar, rfl, enclosed_flatMap _, toList_string module⟩ hend

theorem isAt_keyword {s : String} (hs : s.toList ≠ []) (hall : s.toList.all isWordPart = true) :
    (Token.keyword s).IsAt [] :=
  ⟨hs, List.all_eq_true.1 hall, by simp⟩

/-- A statement of which everything behind its first word is laid out. -/
theorem written_of_laid {clause : Clause} {us : List Token} {text : String} {module : String}
    (hreads : clause.Reads us) (hus : Laid (us ++ [.quoted (string module).toList, .mark ';']) cs)
    (htext : text.toList = "import".toList ++ ' ' :: cs) :
    ImportForm.Written ⟨clause, (string module).toList⟩ text := by
  refine ⟨_, ⟨us, [.mark ';'], hreads, .inr rfl, rfl⟩, ?_⟩
  rw [htext]
  dsimp only
  exact laid_word (isAt_keyword (by decide) (by decide)) hus

theorem laid_from (module : String) :
    Laid [.keyword "from", .quoted (string module).toList, .mark ';']
    ("from".toList ++ ' ' :: ((string module).toList ++ [';'])) :=
  laid_word (isAt_keyword (by decide) (by decide)) (laid_module module)

theorem laid_braces (hts : Laid ts cs) (module : String) :
    Laid ((.mark '\x7b' :: (ts ++ [.mark '\x7d', .keyword "from"])) ++
      [.quoted (string module).toList, .mark ';'])
      ('\x7b' :: ' ' ::
        (cs ++ ' ' :: '\x7d' :: ' ' ::
          ("from".toList ++ ' ' :: ((string module).toList ++ [';'])))) := by
  have hclose := ((laid_from module).space.mark (c := '\x7d') rfl).space
  have hopen := (hts.append hclose (by simp; decide)).space.mark (c := '\x7b') rfl
  simpa using hopen

/-- A statement is printed as one with its default and its names. -/
theorem written_statement (st : ImportStatement) (h : ArePrintable st.asDefault st.names) :
    ∃ clause : Clause, ImportForm.Written ⟨clause, (string st.module).toList⟩ (st.text .component) ∧
      clause.Keeps (st.asDefault.map String.toList) st.names := by
  obtain ⟨module, main?, names⟩ := st
  cases main? with
  | none =>
    cases names with
    | nil => exact ⟨_,
      written_of_laid .nothing (laid_module module) (by simp [ImportStatement.text]), .nothing⟩
    | cons name names =>
      obtain ⟨specs, ts, hspecs, hlisted, hts⟩ := listed_join (List.cons_ne_nil _ _) h.names
      refine ⟨_, written_of_laid (.names hlisted) (laid_braces hts module) ?_, .names hspecs⟩
      simp [ImportStatement.text, join]
  | some d =>
    have hd := h.main d rfl
    cases names with
    | nil =>
      refine ⟨_, written_of_laid (.main d.toList) (laid_word hd (laid_from module)) ?_,
        .main d.toList⟩
      simp [ImportStatement.text, join]
    | cons name names =>
      obtain ⟨specs, ts, hspecs, hlisted, hts⟩ := listed_join (List.cons_ne_nil _ _) h.names
      have hus := laid_word_comma hd (laid_braces hts module).space
      refine ⟨_, written_of_laid (.both d.toList hlisted) hus ?_, .both d.toList hspecs⟩
      simp [ImportStatement.text, join]

end Printed

/-! ## The table -/

/-- What a table of imports binds. -/
def Holds (i : Imports) (b : Bound) : Prop :=
  (∃ module ∈ Assoc.keys i.named,
  OfParts (.ok module) (i.defaults.get? module) (i.named.namesOf module) b) ∨
    ∃ text ∈ i.raw, Binds text b

/-- A table whose entries are printed as import statements. -/
structure IsPrintable (i : Imports) : Prop where
  defaults : ∀ module ∈ Assoc.keys i.defaults, module ∈ Assoc.keys i.named
  entries : ∀ module, ArePrintable (i.defaults.get? module) (i.named.namesOf module)
  raw : ∀ text ∈ i.raw, ∃ f : ImportForm, f.Written text

section Table

variable {i : Imports} {b : Bound}

theorem OfParts.congr {module : Attempt String} {main? : Option String} {names names' : List String}
    (h : ∀ name, name ∈ names ↔ name ∈ names') :
    OfParts module main? names b ↔ OfParts module main? names' b := by
  simp only [ofParts_iff, h]

/-- The statement for a module. -/
def statementOf (i : Imports) (module : String) : ImportStatement :=
  ⟨module, i.defaults.get? module, sortTexts (i.named.namesOf module)⟩

/-- A line of the import block with what it binds. -/
theorem written_line (h : IsPrintable i) (module : String) :
    ∃ f : ImportForm, f.Written ((statementOf i module).text .component) ∧
      ∀ b, b ∈ f.bindings ↔
        OfParts (.ok module) (i.defaults.get? module) (i.named.namesOf module) b := by
  have hmem (name : String) : name ∈ sortTexts (i.named.namesOf module) ↔
      name ∈ i.named.namesOf module :=
    (perm_sortTexts _).mem_iff
  have hprintable : ArePrintable (statementOf i module).asDefault (statementOf i module).names :=
    ⟨(h.entries module).main, fun name hname => (h.entries module).names name ((hmem name).1 hname)⟩
  obtain ⟨clause, hwritten, hkeeps⟩ := written_statement (statementOf i module) hprintable
  refine ⟨_, hwritten, fun b => ?_⟩
  rw [mem_bindings_of_keeps hkeeps]
  dsimp only [statementOf]
  rw [String.ofList_toList, decodeString_string, OfParts.congr hmem]
  cases i.defaults.get? module with
  | none => rfl
  | some d => simp

theorem mem_lines (h : IsPrintable i) {line : String} : line ∈ importLines i .component ↔
    (∃ module ∈ Assoc.keys i.named, line = (statementOf i module).text .component) ∨
      line ∈ i.raw := by
  have hkeys (module : String) : module ∈ sortTexts (addTexts i.named.keys i.defaults.keys) ↔
      module ∈ Assoc.keys i.named := by
    rw [(perm_sortTexts _).mem_iff, mem_addTexts]
    exact or_iff_left_of_imp (h.defaults module)
  rw [importLines_eq, List.mem_append, (perm_sortTexts _).mem_iff, importStatements, List.map_map,
    List.mem_map]
  simp only [hkeys, Function.comp_apply, statementOf, eq_comm]

/-- The import block consists of import statements. -/
theorem written_importLines (h : IsPrintable i) {line : String}
    (hline : line ∈ importLines i .component) :
    ∃ f : ImportForm, f.Written line := by
  rcases (mem_lines h).1 hline with ⟨module, -, rfl⟩ | hraw
  · obtain ⟨f, hf, -⟩ := written_line h module
    exact ⟨f, hf⟩
  · exact h.raw line hraw

/-- The import block binds what the table holds. -/
theorem binds_importLines (h : IsPrintable i) :
    (∃ line ∈ importLines i .component, Binds line b) ↔ Holds i b := by
  have hline (module : String) : Binds ((statementOf i module).text .component) b ↔
      OfParts (.ok module) (i.defaults.get? module) (i.named.namesOf module) b := by
    obtain ⟨f, hf, hb⟩ := written_line h module
    rw [hf.binds_iff, hb]
  simp only [mem_lines h, Holds]
  constructor
  · rintro ⟨line, ⟨module, hmodule, rfl⟩ | hraw, hb⟩
    · exact .inl ⟨module, hmodule, (hline module).1 hb⟩
    · exact .inr ⟨line, hraw, hb⟩
  · rintro (⟨module, hmodule, hb⟩ | ⟨text, hraw, hb⟩)
    · exact ⟨_, .inl ⟨module, hmodule, rfl⟩, (hline module).2 hb⟩
    · exact ⟨text, .inr hraw, hb⟩

end Table

/-! ## Taking a statement in -/

section Step

variable {i i' : Imports} {f : ImportForm} {text : String} {b : Bound} {module : String}
    {main? : Option String}
  {names : List String}

theorem word_isAt {ts : List Token} {cs w : List Char} (h : Laid ts cs) (hw : .word w ∈ ts) :
    (Token.word w).IsAt [] := by
  induction h with
  | nil => cases hw
  | cons hbs ht hrest ih =>
    rcases List.mem_cons.1 hw with rfl | hw
    · exact ⟨ht.1, ht.2.1, by simp⟩
    · exact ih hw

theorem exists_isSpec {specs : List (List Token)} (hspecs : ∀ spec ∈ specs, IsSpec spec)
    (h : AreLaid specs names) :
    ∀ name ∈ names, ∃ spec, IsSpec spec ∧ Laid spec name.toList := by
  induction h with
  | nil => exact List.forall_mem_nil _
  | cons hfirst _ ih =>
    rw [List.forall_mem_cons] at hspecs
    exact List.forall_mem_cons.2 ⟨⟨_, hspecs.1, hfirst⟩, ih hspecs.2⟩

/-- What is kept of a statement can be printed. -/
theorem printable_of_written {main? : Option (List Char)} (hf : f.Written text)
    (h : f.clause.Keeps main? names) :
    ArePrintable (main?.map String.ofList) names := by
  obtain ⟨clause, module⟩ := f
  obtain ⟨ts, ⟨us, stop, hclause, -, rfl⟩, hlaid⟩ := hf
  have hmain {name : List Char} (hmem : .word name ∈ us) :
      ∀ n, (some name).map String.ofList = some n → (Token.word n.toList).IsAt [] := by
    rintro n ⟨⟩
    rw [String.toList_ofList]
    exact word_isAt hlaid (List.mem_cons_of_mem _ (List.mem_append_left _ hmem))
  cases h with
  | nothing => exact ⟨by simp, by simp⟩
  | main name =>
    cases hclause
    exact ⟨hmain (by simp), by simp⟩
  | names hspecs =>
    cases hclause with
    | names hlisted => exact ⟨by simp, exists_isSpec hlisted.isSpec hspecs⟩
  | both name hspecs =>
    cases hclause with
    | both _ hlisted => exact ⟨hmain (by simp), exists_isSpec hlisted.isSpec hspecs⟩

theorem keys_takeParts {k : String} :
    k ∈ Assoc.keys (takeParts i module main? names).named ↔
      k = module ∨ k ∈ Assoc.keys i.named := by
  cases main? <;> exact ModuleNames.mem_keys_add

theorem default_takeParts (i : Imports) (module k : String) (main? : Option String)
    (names : List String) :
    (takeParts i module main? names).defaults.get? k =
      if k = module then main?.or (i.defaults.get? k) else i.defaults.get? k := by
  rw [takeParts, Imports.add]
  cases main? with
  | none => simp [takeDefault]
  | some name =>
    rw [takeDefault, Assoc.get?_put]
    split_ifs <;> rfl

theorem defaultKeys_takeParts {k : String}
    (h : k ∈ Assoc.keys (takeParts i module main? names).defaults) :
    k = module ∨ k ∈ Assoc.keys i.defaults := by
  cases main? with
  | none => exact .inr h
  | some name => exact Assoc.mem_keys_put.1 h

theorem namesOf_takeParts (i : Imports) (module k : String) (main? : Option String)
    (names : List String) :
    (takeParts i module main? names).named.namesOf k =
      if k = module then addTexts (i.named.namesOf module) names else i.named.namesOf k := by
  cases main? <;> exact ModuleNames.namesOf_add i.named module k names

theorem raw_takeParts (i : Imports) (module : String) (main? : Option String)
    (names : List String) :
    (takeParts i module main? names).raw = i.raw := by
  cases main? <;> rfl

/-- A module that is not in the table has no parts. -/
theorem eq_effect_of_not_mem (h : IsPrintable i) (hmodule : module ∉ Assoc.keys i.named)
    (hb : OfParts (.ok module) (i.defaults.get? module) (i.named.namesOf module) b) :
    b = ⟨.ok module, .effect, []⟩ := by
  cases hb with
  | effect => rfl
  | main hname =>
    exact absurd (h.defaults module (List.mem_map.2 ⟨_, Assoc.mem_of_get? hname, rfl⟩)) hmodule
  | name hname =>
    rw [ModuleNames.namesOf, Assoc.get?, Assoc.lookup_eq_none_of_not_mem hmodule] at hname
    cases hname

/-- Parts of the same module, if they do not disagree on the default. -/
theorem ofParts_or {module : Attempt String} {d? e? : Option String} {names' : List String}
    (hagree : ∀ d e, d? = some d → e? = some e → d = e) :
    OfParts module (d?.or e?) (addTexts names' names) b ↔
      OfParts module e? names' b ∨ OfParts module d? names b := by
  have hmain (name : String) : d?.or e? = some name ↔ e? = some name ∨ d? = some name := by
    cases d? with
    | none => simp
    | some d =>
      cases e? with
      | none => simp
      | some e => simp [hagree d e rfl rfl]
  constructor
  · intro h
    cases h with
    | effect => exact .inl .effect
    | main h => exact ((hmain _).1 h).imp .main .main
    | name h hlaid => exact (mem_addTexts.1 h).imp (.name · hlaid) (.name · hlaid)
  · rintro (h | h)
    · cases h with
      | effect => exact .effect
      | main h => exact .main ((hmain _).2 (.inl h))
      | name h hlaid => exact .name (mem_addTexts.2 (.inl h)) hlaid
    · cases h with
      | effect => exact .effect
      | main h => exact .main ((hmain _).2 (.inr h))
      | name h hlaid => exact .name (mem_addTexts.2 (.inr h)) hlaid

/-- A statement that is kept as it is. -/
theorem holds_whole (hf : f.Written text) (hi : IsPrintable i) :
    IsPrintable { i with raw := addTexts i.raw [trim text] } ∧
      ∀ b, Holds { i with raw := addTexts i.raw [trim text] } b ↔ Holds i b ∨ Binds text b := by
  have hmem (t : String) : t ∈ addTexts i.raw [trim text] ↔ t ∈ i.raw ∨ t = trim text := by
    rw [mem_addTexts, List.mem_singleton]
  have htrim : f.Written (trim text) := by
    obtain ⟨ts, hreads, hlaid⟩ := hf
    refine ⟨ts, hreads, ?_⟩
    rw [trim, String.toList_ofList]
    exact hlaid.trim
  refine ⟨⟨hi.defaults, hi.entries, fun t ht => ?_⟩, fun b => ?_⟩
  · rcases (hmem t).1 ht with ht | rfl
    · exact hi.raw t ht
    · exact ⟨f, htrim⟩
  · simp only [Holds, hmem, or_and_right, exists_or, exists_eq_left, hf.binds_iff,
      htrim.binds_iff, or_assoc]

theorem isPrintable_takeParts (hi : IsPrintable i) (h : ArePrintable main? names) :
    IsPrintable (takeParts i module main? names) := by
  refine ⟨fun k hk => keys_takeParts.2 ((defaultKeys_takeParts hk).imp_right (hi.defaults k)),
    fun k => ?_, ?_⟩
  · rw [default_takeParts, namesOf_takeParts]
    split_ifs with hk
    · subst hk
      refine ⟨fun name hname => ?_, fun name hname => ?_⟩
      · rcases Option.or_eq_some_iff.1 hname with hname | ⟨-, hname⟩
        · exact h.main name hname
        · exact (hi.entries k).main name hname
      · rcases mem_addTexts.1 hname with hname | hname
        · exact (hi.entries k).names name hname
        · exact h.names name hname
    · exact hi.entries k
  · rw [raw_takeParts]
    exact hi.raw

/-- Parts of a statement are added to those of its module. -/
theorem ofParts_takeParts (hagree : ∀ d e, main? = some d → i.defaults.get? module = some e → d = e)
    (k : String) :
    OfParts (.ok k) ((takeParts i module main? names).defaults.get? k)
        ((takeParts i module main? names).named.namesOf k) b ↔
      OfParts (.ok k) (i.defaults.get? k) (i.named.namesOf k) b ∨
        (k = module ∧ OfParts (.ok module) main? names b) := by
  rw [default_takeParts, namesOf_takeParts]
  split_ifs with hk
  · subst hk
    rw [ofParts_or hagree, and_iff_right rfl]
  · simp [hk]

/-- A statement that is taken apart. -/
theorem holds_takeParts (hi : IsPrintable i)
    (hagree : ∀ d e, main? = some d → i.defaults.get? module = some e → d = e) :
    Holds (takeParts i module main? names) b ↔ Holds i b ∨ OfParts (.ok module) main? names b := by
  simp only [Holds, ofParts_takeParts hagree, keys_takeParts, raw_takeParts]
  constructor
  · rintro (⟨k, hk, hb | ⟨rfl, hb⟩⟩ | hb)
    · by_cases hmem : k ∈ Assoc.keys i.named
      · exact .inl (.inl ⟨k, hmem, hb⟩)
      · -- The module is new to the table, which had nothing of it, and to run it is part of the
        -- statement.
        obtain rfl := hk.resolve_right hmem
        exact .inr (eq_effect_of_not_mem hi hmem hb ▸ .effect)
    · exact .inr hb
    · exact .inl (.inr hb)
  · rintro ((⟨k, hk, hb⟩ | hb) | hb)
    · exact .inl ⟨k, .inr hk, .inl hb⟩
    · exact .inr hb
    · exact .inl ⟨module, .inl rfl, .inr ⟨rfl, hb⟩⟩

/-- A statement that is taken in adds what it binds to what the table holds. -/
theorem holds_of_taken (ht : Taken f text i i') (hf : f.Written text) (hplain : '\\' ∉ f.module)
    (hi : IsPrintable i)
    (hagree : ∀ module name name', Holds i ⟨.ok module, .main, name⟩ →
    ⟨.ok module, .main, name'⟩ ∈ f.bindings →
      name = name') :
    IsPrintable i' ∧ ∀ b, Holds i' b ↔ Holds i b ∨ Binds text b := by
  cases ht with
  | whole => exact holds_whole hf hi
  | @parts main? names q module hkeeps hmodule =>
    have hdecode : decodeString (String.ofList f.module) = .ok (String.ofList module) := by
      rw [hmodule]
      exact decodeString_of_points
        (decodePoints_of_not_mem fun hmem => hplain (by simp [hmodule, hmem]))
    have hbindings (b : Bound) : b ∈ f.bindings ↔
        OfParts (.ok (String.ofList module)) (main?.map String.ofList) names b := by
      rw [mem_bindings_of_keeps hkeeps, hdecode]
    have hsame (d e : String) (hd : main?.map String.ofList = some d)
        (he : i.defaults.get? (String.ofList module) = some e) : d = e := by
      have hkey : String.ofList module ∈ Assoc.keys i.named :=
        hi.defaults _ (List.mem_map.2 ⟨_, Assoc.mem_of_get? he, rfl⟩)
      have hword := hagree _ _ _ (.inl ⟨_, hkey, .main he⟩) ((hbindings _).2 (.main hd))
      simpa [String.toList_inj, eq_comm] using hword
    refine ⟨isPrintable_takeParts hi (printable_of_written hf hkeeps), fun b => ?_⟩
    rw [holds_takeParts hi hsame, hf.binds_iff, hbindings]

end Step

/-! ## Declarations -/

theorem run_get_bind {α : Type} (f : Draft → Writer α) (d : Draft) :
    ((get : Writer Draft) >>= f).run.run d = (f d).run.run d := rfl

theorem run_modify_bind {α : Type} (g : Draft → Draft) (f : PUnit → Writer α) (d : Draft) :
    ((modify g : Writer PUnit) >>= f).run.run d = (f ⟨⟩).run.run (g d) := rfl

theorem run_carryDeclarations_take {source : String} {rest : List String} {d : Draft} {i : Imports}
    (h : d.imports.take? source = some i) :
    (carryDeclarations true (source :: rest)).run.run d =
      (carryDeclarations true rest).run.run { d with imports := i } := by
  rw [carryDeclarations, if_pos rfl, run_get_bind, h, run_modify_bind]

theorem run_carryDeclarations_keep {source : String} {rest kept : List String} {d d' : Draft}
    (h : d.imports.take? source = none)
    (hrest : (carryDeclarations true rest).run.run d = (.ok kept, d')) :
    (carryDeclarations true (source :: rest)).run.run d = (.ok (source :: kept), d') := by
  rw [carryDeclarations, if_pos rfl, run_get_bind, h]
  simp only [ExceptT.run_bind, StateT.run_bind, hrest]
  rfl

/-- Of all that is bound, a module has its default under one name. -/
def OneDefault (bound : Bound → Prop) : Prop :=
  ∀ module name name', bound ⟨.ok module, .main, name⟩ → bound ⟨.ok module, .main, name'⟩ →
    name = name'

/-- The statements that are not taken in. -/
def untaken (ts : List String) : List String := ts.filter fun t => !hasHead (trim t) "import "

/-- All statements together bind what each of them does, and what the table held before. -/
theorem holds_carryDeclarations {ts : List String} {d : Draft} (hd : IsPrintable d.imports)
    (hts : ∀ t ∈ ts, ∃ f : ImportForm, f.Written t ∧ f.Fits)
    (hone : OneDefault fun b => Holds d.imports b ∨ ∃ t ∈ ts, Binds t b) :
    ∃ d', (carryDeclarations true ts).run.run d = (.ok (untaken ts), d') ∧ IsPrintable d'.imports ∧
      ∀ b, (Holds d'.imports b ∨ ∃ t ∈ untaken ts, Binds t b) ↔
        Holds d.imports b ∨ ∃ t ∈ ts, Binds t b := by
  induction ts generalizing d with
  | nil => exact ⟨d, rfl, hd, fun b => .rfl⟩
  | cons t ts ih =>
    rw [List.forall_mem_cons] at hts
    obtain ⟨⟨f, hf, hfits⟩, hts⟩ := hts
    simp only [List.exists_mem_cons_iff] at hone ⊢
    rcases taken_of_written hf hfits d.imports with ⟨hhead, htake⟩ | ⟨hhead, i, htake, htaken⟩
    · -- it stays a declaration
      obtain ⟨d', hrun, hprintable, hholds⟩ := ih hd hts fun module name name' h h' =>
        hone module name name' (h.imp_right .inr) (h'.imp_right .inr)
      have huntaken : untaken (t :: ts) = t :: untaken ts := by simp [untaken, hhead]
      refine ⟨d', huntaken ▸ run_carryDeclarations_keep htake hrun, hprintable, fun b => ?_⟩
      rw [huntaken, List.exists_mem_cons_iff, or_left_comm, hholds, or_left_comm]
    · -- the slot for the default is free, or it holds the name that the statement gives
      have hagree (module : String) (name name' : List Token)
          (h : Holds d.imports ⟨.ok module, .main, name⟩)
          (h' : ⟨.ok module, .main, name'⟩ ∈ f.bindings) : name = name' :=
        hone module name name' (.inl h) (.inr (.inl (hf.binds_iff.2 h')))
      obtain ⟨hprintable, hholds⟩ := holds_of_taken htaken hf hfits.plain hd hagree
      obtain ⟨d', hrun, hprintable', hholds'⟩ :=
        ih (d := { d with imports := i }) hprintable hts (by
        simpa only [hholds, or_assoc] using hone)
      have huntaken : untaken (t :: ts) = untaken ts := by simp [untaken, hhead]
      refine ⟨d', by rw [run_carryDeclarations_take htake, huntaken, hrun], hprintable',
        fun b => ?_⟩
      rw [huntaken, hholds', hholds, or_assoc]

/-- Import statements come through the table.  When the statements that a document declares fit the
table and agree on the defaults of their modules, the import block, with the statements that are not
taken in and stay declarations, consists of import statements, and these bind just what was bound:
the same names of the same modules in the same ways. -/
theorem binds_carryDeclarations {ts : List String}
    (hts : ∀ t ∈ ts, ∃ f : ImportForm, f.Written t ∧ f.Fits)
    (hone : OneDefault fun b => ∃ t ∈ ts, Binds t b) :
    ∃ d, (carryDeclarations true ts).run.run {} = (.ok (untaken ts), d) ∧
      (∀ line ∈ importLines d.imports .component ++ untaken ts, ∃ f : ImportForm, f.Written line) ∧
      ∀ b, (∃ line ∈ importLines d.imports .component ++ untaken ts, Binds line b) ↔
        ∃ t ∈ ts, Binds t b := by
  have hempty : IsPrintable ({} : Draft).imports :=
    ⟨by simp [Assoc.keys],
    fun _ => ⟨by simp [Assoc.get?], by simp [ModuleNames.namesOf, Assoc.get?]⟩, by simp⟩
  have hnone (b : Bound) : ¬ Holds ({} : Draft).imports b := by simp [Holds, Assoc.keys]
  obtain ⟨d, hrun, hprintable, hholds⟩ :=
    holds_carryDeclarations (d := {}) hempty hts (by simpa [hnone] using hone)
  refine ⟨d, hrun, fun line hline => ?_, fun b => ?_⟩
  · rcases List.mem_append.1 hline with hline | hline
    · exact written_importLines hprintable hline
    · obtain ⟨f, hf, -⟩ := hts line (List.mem_filter.1 hline).1
      exact ⟨f, hf⟩
  · have hboth := hholds b
    rw [or_iff_right (hnone b)] at hboth
    rw [← hboth, ← binds_importLines hprintable]
    simp only [List.mem_append, or_and_right, exists_or]

/-- Two statements for one module. -/
def reactImports : List String :=
  ["import React from \"react\";", "import { useState } from \"react\";"]

theorem laid_name {w : List Char} (hw : (Token.word w).IsAt []) : Laid [.word w] w := by
  simpa [Token.chars] using Laid.token hw (.nil (List.forall_mem_nil _))

theorem written_reactDefault :
    ImportForm.Written ⟨.main "React".toList, (string "react").toList⟩
      "import React from \"react\";" :=
  written_of_laid (.main _)
    (laid_word (isAt_keyword (s := "React") (by decide) (by decide)) (laid_from "react"))
    (by decide)

theorem written_reactNames :
    ImportForm.Written ⟨.names [[.keyword "useState"]], (string "react").toList⟩
      "import { useState } from \"react\";" := by
  have hlisted : Listed [[.keyword "useState"]] [.keyword "useState"] :=
    .last ⟨by simp, fun c => by simp [Token.keyword]⟩
  have hname := laid_name (isAt_keyword (s := "useState") (by decide) (by decide))
  exact written_of_laid (.names hlisted) (laid_braces hname "react") (by decide)

theorem binds_carryDeclarations_react : ∃ d,
    (carryDeclarations true reactImports).run.run {} = (.ok (untaken reactImports), d) ∧
      (∀ line ∈ importLines d.imports .component ++ untaken reactImports, ∃ f : ImportForm,
      f.Written line) ∧
      ∀ b, (∃ line ∈ importLines d.imports .component ++ untaken reactImports, Binds line b) ↔
        ∃ t ∈ reactImports, Binds t b := by
  apply binds_carryDeclarations
  · have hplain : '\\' ∉ (string "react").toList := by decide
    refine List.forall_mem_cons.2
      ⟨⟨_, written_reactDefault, ?_, hplain, ?_⟩, List.forall_mem_singleton.2
      ⟨_, written_reactNames, ?_, hplain, ?_⟩⟩
    · intro specs h
      cases h
    · simp [Clause.specs]
    · intro specs h
      cases h
    · simp [Clause.specs]
      decide
  · intro module name name' h h'
    simp [reactImports, written_reactDefault.binds_iff, written_reactNames.binds_iff,
      ImportForm.bindings] at h h'
    rw [h.2, h'.2]

/-- A statement that imports types only. -/
def typeImport : String := "import type { A } from \"m\";"

theorem written_typeImport :
    ImportForm.Written ⟨.types [[.keyword "A"]], (string "m").toList⟩ typeImport := by
  have hlisted : Listed [[.keyword "A"]] [.keyword "A"] :=
    .last ⟨by simp, fun c => by simp [Token.keyword]⟩
  have hname := laid_name (isAt_keyword (s := "A") (by decide) (by decide))
  exact written_of_laid (.types hlisted)
    (laid_word (isAt_keyword (s := "type") (by decide) (by decide)) (laid_braces hname "m"))
      (by decide)

/-- The table holds the types as names, beside a default with the name `type`. -/
theorem take?_typeImport :
    ({} : Imports).take? typeImport =
      some { named := [("m", ["A"])], defaults := [("m", "type")] } := by
  have hparts : (({} : Imports).take? typeImport).map (fun i => (i.named, i.defaults, i.raw)) =
      some ([("m", ["A"])], [("m", "type")], []) := by
    decide +kernel
  generalize ({} : Imports).take? typeImport = taken at hparts
  cases taken with
  | none => cases hparts
  | some i =>
    obtain ⟨named, defaults, raw⟩ := i
    cases hparts
    rfl

/-- Types do not come through the table. -/
theorem not_binds_typeImport : ¬ ∃ d,
    (carryDeclarations true [typeImport]).run.run {} = (.ok (untaken [typeImport]), d) ∧
      ∀ b, (∃ line ∈ importLines d.imports .component ++ untaken [typeImport], Binds line b) ↔
        ∃ t ∈ [typeImport], Binds t b := by
  rintro ⟨d, hrun, hbinds⟩
  rw [run_carryDeclarations_take (d := {}) take?_typeImport] at hrun
  have himports : d.imports = { named := [("m", ["A"])], defaults := [("m", "type")] } := by
    rw [← (Prod.mk.inj hrun).2]
  have hprintable : IsPrintable d.imports := by
    rw [himports]
    refine ⟨by simp [Assoc.keys], fun module => ⟨fun name h => ?_, fun name h => ?_⟩, by simp⟩
    · cases List.mem_singleton.1 (Assoc.mem_of_get? h)
      exact isAt_keyword (by decide) (by decide)
    · rw [ModuleNames.namesOf] at h
      cases hget : Assoc.get? [("m", ["A"])] module with
      | none => simp [hget] at h
      | some names =>
        rw [hget] at h
        cases List.mem_singleton.1 (Assoc.mem_of_get? hget)
        cases List.mem_singleton.1 h
        exact ⟨[.keyword "A"], ⟨by simp, fun c => by simp [Token.keyword]⟩,
          laid_name (isAt_keyword (by decide) (by decide))⟩
  have hmain : Holds d.imports ⟨.ok "m", .main, [.keyword "type"]⟩ := by
    rw [himports]
    exact .inl ⟨"m", List.mem_cons_self, .main rfl⟩
  obtain ⟨line, hline, hb⟩ := (binds_importLines hprintable).2 hmain
  obtain ⟨t, ht, hb⟩ := (hbinds _).1 ⟨line, List.mem_append_left _ hline, hb⟩
  rw [List.mem_singleton.1 ht, written_typeImport.binds_iff] at hb
  simp [ImportForm.bindings] at hb

end WidgetBridge.Writing
