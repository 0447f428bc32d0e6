import WidgetBridge.Imports
import WidgetBridge.Proofs.ComponentGrammar.ImportForm
import WidgetBridge.Proofs.ComponentGrammar.Quoted
import WidgetBridge.Proofs.Text.CharTable
import WidgetBridge.Proofs.Text.Match

/-!
# How import statements are read into the table

The table of imports reads a statement with one pattern, which knows nothing of tokens.  Here its
parts (`Leads`, `Braced`, `Closes`) are laid over the tokens of the statement, from the left:
`Laid.at_word` and `Laid.at_mark` find the token that starts where a part does.
-/

namespace WidgetBridge.ComponentGrammar

open WidgetBridge.Text

/-! ## Tokens at the start of a text -/

theorem isWordPart_of_isWord {c : Char} (h : (isWord c || c == '$') = true) :
    isWordPart c = true := by
  by_cases hlt : c.toNat < 128
  · refine isWordPart_of_isNameChar ?_
    simp only [isWord, hlt, if_true, Bool.or_eq_true, beq_iff_eq] at h
    simp only [isNameChar, isNameStart, Bool.or_eq_true, beq_iff_eq]
    tauto
  · have hascii (d : Char) (hd : d.toNat < 128) : c ≠ d := by
      rintro rfl
      exact hlt hd
    have hword : isWord c = true := by simpa [hascii] using h
    have hblank : isBlank c = false := by
      by_contra hb
      rw [not_isWord_of_isBlank (Bool.of_not_eq_false hb)] at hword
      cases hword
    have hwidth : c.toNat ∉ [0x200B, 0x2060, 0xFEFF] := fun hmem => by
      rw [not_isWord_of_mem widthless_not_mem_wordRanges hlt hmem] at hword
      cases hword
    have hcontrol : ¬ c.toNat < 0x20 := by omega
    simp only [List.mem_cons, List.not_mem_nil, or_false, not_or] at hwidth
    simp only [isWordPart, Lexical.isNamePart, Lexical.isSpace, hblank, hcontrol]
    simp [hwidth, hascii]

section Starts

variable {ts us : List Token} {w bs cs rest : List Char} {c : Char}

/-- Where no white space stands, a token does. -/
theorem Laid.exists_token (h : Laid ts (c :: cs)) (hc : isBlank c = false) :
    ∃ t us rest, ts = t :: us ∧ c :: cs = t.chars ++ rest ∧ t.IsAt rest ∧ Laid us rest := by
  cases ts with
  | nil =>
    generalize hall : c :: cs = all at h
    cases h with
    | nil hbs =>
      subst hall
      rw [hbs c List.mem_cons_self] at hc
      cases hc
  | cons t us =>
    obtain ⟨rest, heq, ht, hrest⟩ := h.at_head hc
    exact ⟨t, us, rest, rfl, heq, ht, hrest⟩

/-- The token that can be seen at the start of a text is the first one. -/
theorem Laid.starts {t : Token} (h : Laid ts (t.chars ++ rest)) (ht : t.IsAt rest) :
    ∃ us, ts = t :: us ∧ Laid us rest := by
  obtain ⟨c, cs, hc, hblank⟩ := ht.head_not_isBlank
  have hts := h
  rw [hc, List.cons_append] at hts
  obtain ⟨u, us, rest', rfl, -, -, -⟩ := hts.exists_token hblank
  obtain ⟨rfl, hus⟩ := h.at_token ht
  exact ⟨us, rfl, hus⟩

theorem Laid.at_mark (h : Laid ts (c :: rest)) (hc : isMark c = true) :
    ∃ us, ts = .mark c :: us ∧ Laid us rest :=
  Laid.starts (t := .mark c) h hc

/-- A run of word characters is a token if none follows. -/
theorem Laid.at_word (h : Laid ts (w ++ rest)) (hw : w ≠ []) (hall : ∀ d ∈ w, isWordPart d = true)
    (hrest : ∀ d ∈ rest.head?, isWordPart d = false) : ∃ us, ts = .word w :: us ∧ Laid us rest :=
  Laid.starts (t := .word w) h ⟨hw, hall, hrest⟩

/-- A keyword with white space behind it. -/
theorem Laid.at_keyword {s : String} (h : Laid ts (s.toList ++ (bs ++ rest))) (hs : s.toList ≠ [])
    (hall : s.toList.all isWordPart = true) (hne : bs ≠ []) (hbs : ∀ b ∈ bs, isBlank b = true) :
    ∃ us, ts = .keyword s :: us ∧ Laid us rest := by
  obtain ⟨us, rfl, hus⟩ := h.at_word hs (List.all_eq_true.1 hall) fun d hd => by
    rw [List.head?_append_of_ne_nil _ hne] at hd
    exact not_isWordPart_of_isBlank (hbs d (List.mem_of_mem_head? hd))
  exact ⟨us, rfl, hus.drop_blanks hbs⟩

/-- Without backslashes the quote does not stand inside. -/
theorem Enclosed.not_mem {quote : Char} (h : Enclosed quote cs) (hslash : '\\' ∉ cs) :
    quote ∉ cs := by
  induction h with
  | nil => exact List.not_mem_nil
  | plain hquote hplain hline h ih =>
    rw [List.mem_cons, not_or] at hslash ⊢
    exact ⟨hquote.symm, ih hslash.2⟩
  | escaped => exact absurd List.mem_cons_self hslash

/-- A quoted text without backslashes is what stands between two quotes, if no quote follows. -/
theorem Laid.at_quoted {q q' : Char} {inner m : List Char}
    (h : Laid (.quoted m :: us) (q :: (inner ++ q' :: rest))) (hq : isQuote q = true)
    (hinner : ∀ d ∈ inner, isQuote d = false) (hrest : ∀ d ∈ rest, isQuote d = false)
    (hm : '\\' ∉ m) : m = q :: (inner ++ [q]) := by
  obtain ⟨rest', heq, ⟨quote, text, hquote, htext, rfl⟩, -⟩ := h.at_head (not_isBlank_of_isQuote hq)
  simp only [Token.chars, List.cons_append, List.append_assoc, List.cons.injEq,
    List.nil_append] at heq
  obtain ⟨rfl, heq⟩ := heq
  have hclosed : q ∉ text := htext.not_mem fun hmem => hm (by simp [hmem])
  have hopen {ds : List Char} (hds : ∀ d ∈ ds, isQuote d = false) : q ∉ ds := fun hmem => by
    rw [hds q hmem] at hq
    cases hq
  have hsame : q' = q := by
    have hmem : q ∈ inner ++ q' :: rest := heq ▸ List.mem_append_right _ List.mem_cons_self
    simpa [hopen hinner, hopen hrest, eq_comm] using hmem
  subst hsame
  rw [(eq_of_append_cons (hopen hinner) hclosed heq).1]

end Starts

/-! ## The parts of the pattern -/

/-- The part for a default, with the name. -/
inductive Leads : List Char → Option (List Char) → Prop
  | none : Leads [] none
  | some {name bs comma bs' : List Char} (hne : name ≠ []) (hname : ∀ c ∈ name, isWordPart c = true)
    (hbs : ∀ b ∈ bs, isBlank b = true) (hcomma : comma = [] ∨ comma = [','])
      (hbs' : ∀ b ∈ bs', isBlank b = true) :
    Leads (name ++ (bs ++ (comma ++ bs'))) (some name)

/-- The part in braces, with what stands between them. -/
inductive Braced : List Char → Option (List Char) → Prop
  | none : Braced [] none
  | some {names bs : List Char} (hnames : '\x7d' ∉ names) (hbs : ∀ b ∈ bs, isBlank b = true) :
    Braced ('\x7b' :: (names ++ '\x7d' :: bs)) (some names)

/-- The part for the module, with its text.  The two quotes need not be the same. -/
inductive Closes : List Char → List Char → Prop
  | mk {q q' : Char} {module bs stop : List Char} (hq : isQuote q = true) (hq' : isQuote q' = true)
    (hmodule : ∀ c ∈ module, isQuote c = false) (hbs : ∀ b ∈ bs, isBlank b = true)
    (hstop : stop = [] ∨ stop = [';']) : Closes (q :: (module ++ q' :: (bs ++ stop))) module

section Parts

open Pattern

variable {cs : List Char} {gs : Groups}

theorem spans_opt_lit {s : String} (h : Spans (opt (lit s)) cs gs) :
    (cs = [] ∨ cs = s.toList) ∧ gs = [] := by
  rcases spans_opt h with ⟨rfl, rfl⟩ | h
  · exact ⟨.inl rfl, rfl⟩
  · obtain ⟨rfl, rfl⟩ := spans_lit h
    exact ⟨.inr rfl, rfl⟩

theorem leads_of_spans (h : Spans (opt (group 1 name ++ blanks ++ opt (lit ",") ++ blanks)) cs gs) :
    ∃ main?, Leads cs main? ∧ gs = (main?.map (Prod.mk 1)).toList := by
  rcases spans_opt h with ⟨rfl, rfl⟩ | h
  · exact ⟨none, .none, rfl⟩
  · obtain ⟨_, bs', _, _, rfl, rfl,
      ⟨_, comma, _, _, rfl, rfl, ⟨d, bs, _, _, rfl, rfl, hname, hbs⟩, hcomma⟩, hbs'⟩ := h
    obtain ⟨hs, rfl, _, more, _, _, rfl, rfl, ⟨c, hc, rfl, rfl⟩, hmore⟩ := hname
    obtain ⟨-, hblank, rfl⟩ := spans_rep_char hbs
    obtain ⟨-, hblank', rfl⟩ := spans_rep_char hbs'
    obtain ⟨-, hrest, rfl⟩ := spans_rep_char hmore
    obtain ⟨hsep, rfl⟩ := spans_opt_lit hcomma
    have hname : ∀ d ∈ [c] ++ more, isWordPart d = true := by
      rw [List.singleton_append, List.forall_mem_cons]
      exact ⟨isWordPart_of_isNameChar (isNameChar_of_isNameStart hc),
        fun d hd => isWordPart_of_isWord (hrest d hd)⟩
    have hleads := Leads.some (by simp) hname hblank hsep hblank'
    exact ⟨some ([c] ++ more), by simpa using hleads, rfl⟩

theorem braced_of_spans
    (h : Spans (opt (lit "\x7b" ++ group 2 (many (noneOf "\x7d")) ++ lit "\x7d" ++ blanks)) cs gs) :
    ∃ names?, Braced cs names? ∧ gs = (names?.map (Prod.mk 2)).toList := by
  rcases spans_opt h with ⟨rfl, rfl⟩ | h
  · exact ⟨none, .none, rfl⟩
  · obtain ⟨_, bs, _, _, rfl, rfl,
      ⟨_, _, _, _, rfl, rfl, ⟨_, names, _, _, rfl, rfl, hopen, hnames⟩, hclose⟩, hbs⟩ := h
    obtain ⟨_, rfl, hnames⟩ := hnames
    obtain ⟨rfl, rfl⟩ := spans_lit hopen
    obtain ⟨rfl, rfl⟩ := spans_lit hclose
    obtain ⟨-, hblank, rfl⟩ := spans_rep_char hbs
    obtain ⟨-, hplain, rfl⟩ := spans_rep_char hnames
    have hnot : '\x7d' ∉ names := fun hmem => by simpa using hplain _ hmem
    have hbraced := Braced.some hnot hblank
    exact ⟨some names, by simpa using hbraced, rfl⟩

/-- The module of an import, in either of the patterns. -/
def modulePart : Pattern := oneOf "'\"" ++ group 3 (many1 (noneOf "'\"")) ++ oneOf "'\""

theorem closes_of_spans {ds stop : List Char} {hs : Groups} (hmodule : Spans modulePart cs gs)
    (hblanks : Spans blanks ds hs) (hstop : stop = [] ∨ stop = [';']) :
    ∃ module, Closes (cs ++ (ds ++ stop)) module ∧ hs ++ gs = [(3, module)] := by
  obtain ⟨_, _, _, _, rfl, rfl, ⟨_, module, _, _, rfl, rfl, ⟨q, hq, rfl, rfl⟩, hmodule⟩,
    ⟨q', hq', rfl, rfl⟩⟩ := hmodule
  obtain ⟨_, rfl, hmany⟩ := hmodule
  obtain ⟨-, hblank, rfl⟩ := spans_rep_char hblanks
  obtain ⟨-, hplain, rfl⟩ := spans_rep_char hmany
  have hquotes (c : Char) : "'\"".toList.contains c = isQuote c := by
    rw [Bool.eq_iff_iff]
    simp [isQuote, or_comm]
  simp only [hquotes, Bool.not_eq_true'] at hq hq' hplain
  have hcloses := Closes.mk hq hq' hplain hblank hstop
  exact ⟨module, by simpa using hcloses, rfl⟩

/-- The parts of a component import, up to a line feed at the end. -/
theorem parts_of_component {s : String} {m : Match}
    (h : Imports.Form.component.matchStart? s = some m) :
    ∃ bs first braces bs' close main? names? module rest,
      s.toList = "import".toList ++
        (bs ++ (first ++ (braces ++ ("from".toList ++ (bs' ++ close))))) ++ rest ∧
      (rest = [] ∨ rest = ['\n']) ∧ (bs ≠ [] ∧ ∀ b ∈ bs, isBlank b = true) ∧
      (bs' ≠ [] ∧ ∀ b ∈ bs', isBlank b = true) ∧ Leads first main? ∧ Braced braces names? ∧
      Closes close module ∧ m.group? 1 = main?.map String.ofList ∧
        m.group? 2 = names?.map String.ofList ∧
      m.group? 3 = some (String.ofList module) := by
  obtain ⟨rest, hs, hrest, hspans⟩ := matchStart?_textEnd h
  obtain ⟨_, stop, _, _, htext, hgroups,
    ⟨_, bs₃, _, _, rfl, rfl,
    ⟨_, path, _, _, rfl, rfl, ⟨_, bs', _, _, rfl, rfl, hfront, hbs'⟩, hpath⟩, hbs₃⟩, hstop⟩ :=
    hspans
  obtain ⟨_, _, _, _, rfl, rfl,
    ⟨_, braces, _, _, rfl, rfl,
    ⟨_, first, _, _, rfl, rfl,
    ⟨_, bs, _, _, rfl, rfl, ⟨_, _, _, _, rfl, rfl, hstart, himport⟩, hbs⟩, hfirst⟩, hbraces⟩,
    hfrom⟩ := hfront
  obtain ⟨rfl, rfl⟩ := hstart
  obtain ⟨rfl, rfl⟩ := spans_lit himport
  obtain ⟨rfl, rfl⟩ := spans_lit hfrom
  obtain ⟨hne, hblank, rfl⟩ := spans_rep_char hbs
  obtain ⟨hne', hblank', rfl⟩ := spans_rep_char hbs'
  obtain ⟨main?, hleads, rfl⟩ := leads_of_spans hfirst
  obtain ⟨names?, hbraced, rfl⟩ := braced_of_spans hbraces
  obtain ⟨hend, rfl⟩ := spans_opt_lit hstop
  obtain ⟨module, hcloses, hmodule⟩ := closes_of_spans hpath hbs₃ hend
  refine ⟨bs, first, braces, bs', path ++ (bs₃ ++ stop), main?, names?, module, rest, ?_, hrest,
    ⟨List.ne_nil_of_length_pos hne, hblank⟩, ⟨List.ne_nil_of_length_pos hne', hblank'⟩, hleads,
    hbraced, hcloses, ?_⟩
  · rw [hs, htext]
    simp only [List.append_assoc, List.nil_append]
  · have hparts : m.groups =
        (3, module) :: ((names?.map (Prod.mk 2)).toList ++ (main?.map (Prod.mk 1)).toList) := by
      rw [hgroups, List.nil_append, ← List.append_assoc, hmodule]
      simp
    simp only [Match.group?, hparts]
    cases main? <;> cases names? <;> exact ⟨rfl, rfl, rfl⟩

/-- The parts of a widget import, up to a line feed at the end. -/
theorem parts_of_widget {s : String} {m : Match} (h : Imports.Form.widget.matchStart? s = some m) :
    ∃ bs close module rest, s.toList = "import".toList ++ (bs ++ close) ++ rest ∧
      (rest = [] ∨ rest = ['\n']) ∧ (bs ≠ [] ∧ ∀ b ∈ bs, isBlank b = true) ∧ Closes close module ∧
      m.group? 3 = some (String.ofList module) := by
  obtain ⟨rest, hs, hrest, hspans⟩ := matchStart?_textEnd h
  obtain ⟨_, stop, _, _, htext, hgroups,
    ⟨_, bs', _, _, rfl, rfl,
    ⟨_, path, _, _, rfl, rfl, ⟨_, bs, _, _, rfl, rfl, ⟨_, _, _, _, rfl, rfl, hstart, himport⟩, hbs⟩,
    hpath⟩, hbs'⟩, hstop⟩ := hspans
  obtain ⟨rfl, rfl⟩ := hstart
  obtain ⟨rfl, rfl⟩ := spans_lit himport
  obtain ⟨hne, hblank, rfl⟩ := spans_rep_char hbs
  obtain ⟨rfl, rfl⟩ := spans_lit hstop
  obtain ⟨module, hcloses, hmodule⟩ := closes_of_spans hpath hbs' (.inr rfl)
  refine ⟨bs, path ++ (bs' ++ [';']), module, rest, ?_, hrest,
    ⟨List.ne_nil_of_length_pos hne, hblank⟩, hcloses, ?_⟩
  · rw [hs, htext]
    simp only [List.append_assoc, List.nil_append]
    rfl
  · have hparts : m.groups = [(3, module)] := by
      rw [hgroups, List.nil_append, ← List.append_assoc, hmodule]
      rfl
    rw [Match.group?, hparts]
    rfl

end Parts

/-! ## The parts over the tokens -/

/-- The specifiers of a clause. -/
def Clause.specs : Clause → List (List Token)
  | .nothing | .main _ | .whole _ => []
  | .names specs | .both _ specs | .types specs => specs

/-- The statements that the table can take in.  It knows nothing of types, of escapes, and of quoted
names that hold marks. -/
structure ImportForm.Fits (f : ImportForm) : Prop where
  values : ∀ specs, f.clause ≠ .types specs
  plain : '\\' ∉ f.module
  names : ∀ spec ∈ f.clause.specs, ∀ t ∈ spec, ',' ∉ t.chars ∧ '\x7d' ∉ t.chars

/-- The names in what stands between braces. -/
def namesIn (s : String) : List String := ((splitAt s ',').map trim).filter fun n => !n.isEmpty

/-- Specifiers that are laid out as texts, one by one. -/
abbrev AreLaid (specs : List (List Token)) (names : List String) : Prop :=
  List.Forall₂ (fun spec name => Laid spec name.toList) specs names

/-- What the table keeps of a clause: the name of the default, and the specifiers as texts. -/
inductive Clause.Keeps : Clause → Option (List Char) → List String → Prop
  | nothing : Keeps .nothing none []
  | main (name : List Char) : Keeps (.main name) (some name) []
  | names {specs : List (List Token)} {names : List String} (h : AreLaid specs names) :
    Keeps (.names specs) none names
  | both (name : List Char) {specs : List (List Token)} {names : List String}
    (h : AreLaid specs names) :
    Keeps (.both name specs) (some name) names

section Alignment

variable {clause : Clause} {us stop rest : List Token} {m w : List Char}

theorem Clause.Reads.of_brace (h : clause.Reads us)
    (heq : us ++ .quoted m :: stop = .mark '\x7b' :: rest) :
    ∃ specs ts, clause = .names specs ∧ Listed specs ts ∧
      rest = ts ++ .mark '\x7d' :: .keyword "from" :: .quoted m :: stop := by
  cases h <;> simp [Token.keyword] at heq
  case names hs => exact ⟨_, _, rfl, hs, by rw [← heq]; simp [Token.keyword]⟩

theorem Clause.Reads.of_quoted {m' : List Char} (h : clause.Reads us)
    (heq : us ++ .quoted m :: stop = .quoted m' :: rest) : clause = .nothing ∧ m' = m := by
  cases h <;> simp [Token.keyword] at heq
  case nothing => exact ⟨rfl, heq.1.symm⟩

theorem Clause.Reads.not_quoted {m' : List Char} (h : clause.Reads us) :
    us ++ .quoted m :: stop ≠ .word w :: .quoted m' :: rest := by
  intro heq
  cases h <;> simp [Token.keyword] at heq

theorem Clause.Reads.of_comma (h : clause.Reads us)
    (heq : us ++ .quoted m :: stop = .word w :: .mark ',' :: rest) :
    ∃ specs ts, clause = .both w specs ∧ Listed specs ts ∧
      rest = .mark '\x7b' :: (ts ++ .mark '\x7d' :: .keyword "from" :: .quoted m :: stop) := by
  cases h <;> simp [Token.keyword] at heq
  case both hs =>
    obtain ⟨rfl, rfl⟩ := heq
    exact ⟨_, _, rfl, hs, rfl⟩

theorem Clause.Reads.of_from (h : clause.Reads us)
    (heq : us ++ .quoted m :: stop = .word w :: .keyword "from" :: rest) :
    clause = .main w ∧ rest = .quoted m :: stop := by
  cases h <;> simp [Token.keyword] at heq
  case main => exact ⟨by rw [heq.1], heq.2.symm⟩

theorem Clause.Reads.of_word_brace (h : clause.Reads us)
    (heq : us ++ .quoted m :: stop = .word w :: .mark '\x7b' :: rest) :
    ∃ specs, clause = .types specs := by
  cases h <;> simp [Token.keyword] at heq
  case types => exact ⟨_, rfl⟩

end Alignment

section Names

variable {spec : List Token} {specs : List (List Token)} {ts us : List Token} {cs ds : List Char}

theorem namesIn_append_cons (cs ds : List Char) :
    namesIn (String.ofList (cs ++ ',' :: ds)) =
      namesIn (String.ofList cs) ++ namesIn (String.ofList ds) := by
  simp only [namesIn, splitAt, String.toList_ofList, splitChars_append_cons, List.map_append,
    List.filter_append]

theorem namesIn_of_not_mem (h : ',' ∉ cs) :
    namesIn (String.ofList cs) = if (trimChars cs).isEmpty then []
      else [String.ofList (trimChars cs)] := by
  rw [namesIn, splitAt, String.toList_ofList, splitChars_of_not_mem h, List.map_singleton,
    List.map_singleton, trim, String.toList_ofList]
  cases trimChars cs with
  | nil => rfl
  | cons c cs => simp

/-- A comma does not stand between the tokens of a specifier. -/
theorem Laid.not_mem {c : Char} (h : Laid ts cs) (hc : isBlank c = false)
    (hts : ∀ t ∈ ts, c ∉ t.chars) :
    c ∉ cs := by
  intro hmem
  rcases h.mem hmem with hblank | ⟨t, ht, hmem⟩
  · rw [hblank] at hc
    cases hc
  · exact hts t ht hmem

theorem namesIn_of_spec (h : Laid spec cs) (hspec : IsSpec spec)
    (hcomma : ∀ t ∈ spec, ',' ∉ t.chars) :
    namesIn (String.ofList cs) = [String.ofList (trimChars cs)] := by
  have hne : trimChars cs ≠ [] := by
    intro hnil
    have hlaid := h.trim
    rw [hnil] at hlaid
    exact hspec.1 (hlaid.unique (.nil (List.forall_mem_nil _)))
  rw [namesIn_of_not_mem (h.not_mem (by decide) hcomma), List.isEmpty_eq_false_iff.2 hne,
    if_neg Bool.false_ne_true]

/-- The specifiers between braces are the names there. -/
theorem Listed.names (h : Listed specs ts) (hlaid : Laid ts cs)
    (hcomma : ∀ spec ∈ specs, ∀ t ∈ spec, ',' ∉ t.chars) :
    AreLaid specs (namesIn (String.ofList cs)) := by
  have hsingle {spec : List Token} {cs : List Char} (hlaid : Laid spec cs) :
      Laid spec (String.ofList (trimChars cs)).toList := by
    rw [String.toList_ofList]
    exact hlaid.trim
  induction h generalizing cs with
  | nil =>
    have hblank : ∀ c ∈ cs, isBlank c = true := fun c hc => (hlaid.mem hc).resolve_right (by simp)
    have hnil : trimChars cs = [] := by
      rw [trimChars, trimStartChars, List.dropWhile_eq_nil_iff.2 hblank]
      rfl
    rw [namesIn_of_not_mem (hlaid.not_mem (by decide) (List.forall_mem_nil _)), hnil]
    exact .nil
  | last hspec =>
    rw [namesIn_of_spec hlaid hspec (hcomma _ List.mem_cons_self)]
    exact .cons (hsingle hlaid) .nil
  | next hspec hrest ih =>
    rw [List.forall_mem_cons] at hcomma
    obtain ⟨body, rest, rfl, hbody, hlaid⟩ := hlaid.split
    rw [namesIn_append_cons, namesIn_of_spec hbody hspec hcomma.1]
    exact .cons (hsingle hbody) (ih hlaid hcomma.2)

/-- Where the table looks for the end of the braces is their end. -/
theorem Laid.braces {rest : List Char} (h : Laid (ts ++ .mark '\x7d' :: us) (cs ++ '\x7d' :: rest))
    (hts : ∀ t ∈ ts, '\x7d' ∉ t.chars) (hcs : '\x7d' ∉ cs) : Laid ts cs ∧ Laid us rest := by
  obtain ⟨body, rest', heq, hbody, hus⟩ := h.split
  obtain ⟨rfl, rfl⟩ := eq_of_append_cons hcs (hbody.not_mem (by decide) hts) heq
  exact ⟨hbody, hus⟩

/-- A default is read as the word that stands there, unless what leads on to the module stands in
the word. -/
theorem Laid.at_default {name gap bs rest : List Char}
    (h : Laid ts (name ++ (gap ++ ("from".toList ++ (bs ++ rest))))) (hne : name ≠ [])
    (hname : ∀ c ∈ name, isWordPart c = true) (hgap : ∀ c ∈ gap.head?, isWordPart c = false)
    (hbs : bs ≠ []) (hblank : ∀ b ∈ bs, isBlank b = true) :
    (∃ us, ts = .word name :: us ∧ Laid us (gap ++ ("from".toList ++ (bs ++ rest)))) ∨
    ∃ w us, ts = .word w :: us ∧ Laid us rest := by
  cases gap with
  | nil =>
    right
    rw [List.nil_append, ← List.append_assoc] at h
    have hword : ∀ c ∈ name ++ "from".toList, isWordPart c = true :=
      List.forall_mem_append.2 ⟨hname, forall_mem_of_all (by decide)⟩
    obtain ⟨us, rfl, hus⟩ := h.at_word (by simp [hne]) hword fun c hc => by
      rw [List.head?_append_of_ne_nil _ hbs] at hc
      exact not_isWordPart_of_isBlank (hblank c (List.mem_of_mem_head? hc))
    exact ⟨_, us, rfl, hus.drop_blanks hblank⟩
  | cons c gap => exact .inl (h.at_word hne hname fun d hd => hgap d (by simpa using hd))

theorem Laid.at_from {bs rest : List Char} (h : Laid ts ("from".toList ++ (bs ++ rest)))
    (hbs : bs ≠ []) (hblank : ∀ b ∈ bs, isBlank b = true) :
    ∃ us, ts = .keyword "from" :: us ∧ Laid us rest :=
  h.at_keyword (by decide) (by decide) hbs hblank

/-- The module is a quoted text. -/
theorem Laid.at_module {module close : List Char} (h : Laid ts close)
    (hcloses : Closes close module) :
    ∃ m us, ts = .quoted m :: us ∧ ('\\' ∉ m → ∃ q, m = q :: (module ++ [q])) := by
  obtain ⟨hq, hq', hmodule, hbs, hstop⟩ := hcloses
  obtain ⟨t, us, rest, rfl, heq, ht, -⟩ := h.exists_token (not_isBlank_of_isQuote hq)
  obtain ⟨d, ds, hd, hkind⟩ := ht.head
  rw [hd] at heq
  obtain ⟨rfl, -⟩ := List.cons.inj heq
  cases t with
  | word => simp [not_isWordPart_of_isQuote hq] at hkind
  | mark => simp [not_isMark_of_isQuote hq] at hkind
  | quoted m =>
    refine ⟨m, us, rfl,
      fun hm => ⟨_, h.at_quoted hq hmodule (List.forall_mem_append.2 ⟨fun b hb => ?_, ?_⟩) hm⟩⟩
    · by_contra hquote
      have hblank := not_isBlank_of_isQuote (Bool.of_not_eq_false hquote)
      rw [hbs b hb] at hblank
      cases hblank
    · rcases hstop with rfl | rfl
      · exact List.forall_mem_nil _
      · exact List.forall_mem_singleton.2 rfl

theorem Listed.mem (h : Listed specs ts) {t : Token} (ht : t ∈ ts) :
    t = .mark ',' ∨ ∃ spec ∈ specs, t ∈ spec := by
  induction h with
  | nil => cases ht
  | last hspec => exact .inr ⟨_, List.mem_cons_self, ht⟩
  | next hspec hrest ih =>
    rcases List.mem_append.1 ht with ht | ht
    · exact .inr ⟨_, List.mem_cons_self, ht⟩
    · rcases List.mem_cons.1 ht with ht | ht
      · exact .inl ht
      · exact (ih ht).imp_right fun ⟨spec, hspec, hmem⟩ =>
          ⟨spec, List.mem_cons_of_mem _ hspec, hmem⟩

/-- The names in braces, and then the module. -/
theorem Listed.keeps {m names bs bs' close module : List Char} (hs : Listed specs ts)
    (hnames : ∀ spec ∈ specs, ∀ t ∈ spec, ',' ∉ t.chars ∧ '\x7d' ∉ t.chars) (hm : '\\' ∉ m)
    (h : Laid (ts ++ .mark '\x7d' :: .keyword "from" :: .quoted m :: us)
      (names ++ '\x7d' :: (bs' ++ ("from".toList ++ (bs ++ close)))))
    (hplain : '\x7d' ∉ names) (hblank' : ∀ b ∈ bs', isBlank b = true) (hbs : bs ≠ [])
    (hblank : ∀ b ∈ bs, isBlank b = true) (hcloses : Closes close module) :
    AreLaid specs (namesIn (String.ofList names)) ∧
      ∃ q, m = q :: (module ++ [q]) := by
  have hts : ∀ t ∈ ts, '\x7d' ∉ t.chars := fun t ht => by
    rcases hs.mem ht with rfl | ⟨spec, hspec, hmem⟩
    · decide
    · exact (hnames spec hspec t hmem).2
  obtain ⟨hlaid, hrest⟩ := h.braces hts hplain
  obtain ⟨vs, heq, hvs⟩ := (hrest.drop_blanks hblank').at_from hbs hblank
  rw [List.cons.injEq] at heq
  obtain ⟨-, rfl⟩ := heq
  obtain ⟨m', vs, heq, hmodule⟩ := hvs.at_module hcloses
  cases heq
  exact ⟨hs.names hlaid fun spec hspec t ht => (hnames spec hspec t ht).1, hmodule hm⟩

end Names

section Reading

variable {f : ImportForm} {us stop ts : List Token} {name first braces bs close module : List Char}
  {main? names? : Option (List Char)}

/-- What is kept of the names, and of the module behind them. -/
def ImportForm.Keeps (f : ImportForm) (main? names? : Option (List Char))
    (module : List Char) : Prop :=
  f.clause.Keeps main? (namesIn (String.ofList (names?.getD []))) ∧
    ∃ q, f.module = q :: (module ++ [q])

section Taken

variable (hclause : f.clause.Reads us) (hfits : f.Fits) (hbraced : Braced braces names?)
    (hbs : bs ≠ [])
  (hblank : ∀ b ∈ bs, isBlank b = true) (hcloses : Closes close module)

include hclause hfits hbraced hbs hblank hcloses

/-- No default is read. -/
theorem keeps_names
    (h : Laid (us ++ .quoted f.module :: stop) (braces ++ ("from".toList ++ (bs ++ close))))
    (hsome : names?.isSome) : f.Keeps none names? module := by
  cases hbraced with
  | none => cases hsome
  | @some names bs' hplain hblank' =>
    rw [List.cons_append, List.append_assoc, List.cons_append] at h
    obtain ⟨ts, heq, hts⟩ := h.at_mark (by decide)
    obtain ⟨specs, ls, hf, hlisted, rfl⟩ := hclause.of_brace heq
    have hnames := hfits.names
    rw [hf] at hnames
    obtain ⟨hkept, hmodule⟩ :=
      hlisted.keeps hnames hfits.plain hts hplain hblank' hbs hblank hcloses
    exact ⟨hf ▸ .names hkept, hmodule⟩

/-- A default is read, and no comma behind it. -/
theorem keeps_main (heq : us ++ .quoted f.module :: stop = .word name :: ts)
    (h : Laid ts (braces ++ ("from".toList ++ (bs ++ close)))) :
    f.Keeps (some name) names? module := by
  cases hbraced with
  | none =>
    obtain ⟨vs, rfl, hvs⟩ := h.at_from hbs hblank
    obtain ⟨hf, rfl⟩ := hclause.of_from heq
    obtain ⟨m, vs, heq, hmodule⟩ := hvs.at_module hcloses
    cases heq
    exact ⟨hf ▸ .main name, hmodule hfits.plain⟩
  | some =>
    obtain ⟨vs, rfl, hvs⟩ := h.at_mark (by decide)
    obtain ⟨specs, hf⟩ := hclause.of_word_brace heq
    exact absurd hf (hfits.values specs)

/-- A default is read, and a comma behind it. -/
theorem keeps_both (heq : us ++ .quoted f.module :: stop = .word name :: .mark ',' :: ts)
    (h : Laid ts (braces ++ ("from".toList ++ (bs ++ close)))) :
    f.Keeps (some name) names? module := by
  obtain ⟨specs, ls, hf, hlisted, rfl⟩ := hclause.of_comma heq
  cases hbraced with
  | none =>
    obtain ⟨ws, hfrom, -⟩ := h.at_from hbs hblank
    cases hfrom
  | @some names bs' hplain hblank' =>
    rw [List.cons_append, List.append_assoc, List.cons_append] at h
    obtain ⟨ws, hbrace, hws⟩ := h.at_mark (by decide)
    obtain ⟨-, rfl⟩ := List.cons.inj hbrace
    have hnames := hfits.names
    rw [hf] at hnames
    obtain ⟨hkept, hmodule⟩ :=
      hlisted.keeps hnames hfits.plain hws hplain hblank' hbs hblank hcloses
    exact ⟨hf ▸ .both name hkept, hmodule⟩

end Taken

theorem forall_head?_append {p : Char → Prop} {cs ds : List Char} (hcs : ∀ c ∈ cs.head?, p c)
    (hds : ∀ c ∈ ds.head?, p c) : ∀ c ∈ (cs ++ ds).head?, p c := by
  cases cs with
  | nil => exact hds
  | cons => exact hcs

theorem forall_head?_blanks {bs : List Char} (hbs : ∀ b ∈ bs, isBlank b = true) :
    ∀ c ∈ bs.head?, isWordPart c = false :=
  fun c hc => not_isWordPart_of_isBlank (hbs c (List.mem_of_mem_head? hc))

/-- The pattern takes a statement apart as its tokens do. -/
theorem Clause.Reads.keeps (hclause : f.clause.Reads us) (hfits : f.Fits)
    (h : Laid (us ++ .quoted f.module :: stop)
      (first ++ (braces ++ ("from".toList ++ (bs ++ close)))))
    (hleads : Leads first main?) (hbraced : Braced braces names?) (hbs : bs ≠ [])
    (hblank : ∀ b ∈ bs, isBlank b = true) (hcloses : Closes close module)
    (hsome : main?.isSome ∨ names?.isSome) :
    f.Keeps main? names? module := by
  cases hleads with
  | none =>
    exact keeps_names hclause hfits hbraced hbs hblank hcloses h
      (hsome.resolve_left Bool.false_ne_true)
  | @some name bs₁ comma bs₂ hne hname hbs₁ hcomma hbs₂ =>
    have hgap : ∀ c ∈ (bs₁ ++ (comma ++ (bs₂ ++ braces))).head?, isWordPart c = false := by
      refine forall_head?_append (forall_head?_blanks hbs₁) (forall_head?_append ?_
        (forall_head?_append (forall_head?_blanks hbs₂) ?_))
      · rcases hcomma with rfl | rfl
        · simp
        · simp only [List.head?_cons, Option.mem_some_iff, forall_eq']
          decide
      · cases hbraced with
        | none => simp
        | some =>
          simp only [List.head?_cons, Option.mem_some_iff, forall_eq']
          decide
    have hlaid : Laid (us ++ .quoted f.module :: stop)
        (name ++ ((bs₁ ++ (comma ++ (bs₂ ++ braces))) ++ ("from".toList ++ (bs ++ close)))) := by
      simpa using h
    rcases hlaid.at_default hne hname hgap hbs hblank with ⟨ts, heq, hts⟩ | ⟨w, ts, heq, hts⟩
    · -- the name is a word, and what follows it says whether names in braces belong to the clause
      rw [List.append_assoc] at hts
      have hts := hts.drop_blanks hbs₁
      rcases hcomma with rfl | rfl
      · rw [List.nil_append, List.append_assoc] at hts
        exact keeps_main hclause hfits hbraced hbs hblank hcloses heq (hts.drop_blanks hbs₂)
      · rw [List.singleton_append, List.cons_append, List.append_assoc] at hts
        obtain ⟨vs, rfl, hvs⟩ := hts.at_mark (by decide)
        exact keeps_both hclause hfits hbraced hbs hblank hcloses heq (hvs.drop_blanks hbs₂)
    · -- a word with the module right behind it: no clause is written so
      obtain ⟨m, vs, rfl, -⟩ := hts.at_module hcloses
      exact absurd heq hclause.not_quoted

end Reading

/-! ## Statements -/

/-- The table of imports with the default of a module, if there is one. -/
def takeDefault (i : Imports) (module : String) : Option String → Imports
  | some name => { i with defaults := i.defaults.put module name }
  | none => i

/-- The table of imports with what a statement imports from a module. -/
def takeParts (i : Imports) (module : String) (main? : Option String)
    (names : List String) : Imports :=
  (takeDefault i module main?).add module names

section Statements

variable {f : ImportForm} {text : String}

theorem eq_nil_of_trim {cs rest : List Char} (h : (trim text).toList = cs ++ rest)
    (hrest : rest = [] ∨ rest = ['\n']) : rest = [] := by
  rcases hrest with rfl | rfl
  · rfl
  · rw [trim, String.toList_ofList] at h
    have hlast : '\n' ∈ (trimChars text.toList).getLast? := by
      rw [h, List.getLast?_concat]
      rfl
    have hblank := not_isBlank_of_getLast?_trimChars hlast
    cases hblank

/-- How a statement gets into the table: as its parts, or as it is. -/
inductive Taken (f : ImportForm) (text : String) (i : Imports) : Imports → Prop
  | parts {main? : Option (List Char)} {names : List String} {q : Char} {module : List Char}
    (hkeeps : f.clause.Keeps main? names) (hmodule : f.module = q :: (module ++ [q])) :
    Taken f text i (takeParts i (String.ofList module) (main?.map String.ofList) names)
  | whole : Taken f text i { i with raw := addTexts i.raw [trim text] }

theorem taken_of_component {us stop : List Token} {m : Pattern.Match} {i : Imports}
    (hclause : f.clause.Reads us) (hfits : f.Fits)
    (h : Laid (.keyword "import" :: (us ++ .quoted f.module :: stop)) (trim text).toList)
    (hm : Imports.Form.component.matchStart? (trim text) = some m)
    (hsome : ((m.group? 1).isSome || (m.group? 2).isSome) = true) :
    Taken f text i (takeParts i (m.get 3) (m.group? 1) (namesIn (m.get 2))) := by
  obtain ⟨bs, first, braces, bs', close, main?, names?, module, rest, hs, hrest, ⟨hbs, hblank⟩,
    ⟨hbs', hblank'⟩, hleads, hbraced, hcloses, hmain, hnames, hmodule⟩ := parts_of_component hm
  have hnil := eq_nil_of_trim hs hrest
  rw [hs, hnil, List.append_nil] at h
  obtain ⟨ts, heq, hts⟩ := h.at_keyword (by decide) (by decide) hbs hblank
  rw [List.cons.injEq] at heq
  obtain ⟨-, rfl⟩ := heq
  rw [hmain, hnames, Option.isSome_map, Option.isSome_map, Bool.or_eq_true] at hsome
  obtain ⟨hkeeps, q, hq⟩ := hclause.keeps hfits hts hleads hbraced hbs' hblank' hcloses hsome
  have hget : m.get 2 = String.ofList (names?.getD []) := by
    rw [Pattern.Match.get, hnames]
    cases names? <;> rfl
  rw [Pattern.Match.get, hmodule, Option.getD_some, hmain, hget]
  exact .parts hkeeps hq

theorem taken_of_widget {us stop : List Token} {m : Pattern.Match} {i : Imports}
    (hclause : f.clause.Reads us) (hfits : f.Fits)
    (h : Laid (.keyword "import" :: (us ++ .quoted f.module :: stop)) (trim text).toList)
    (hm : Imports.Form.widget.matchStart? (trim text) = some m) :
    Taken f text i (i.add (m.get 3) []) := by
  obtain ⟨bs, close, module, rest, hs, hrest, ⟨hbs, hblank⟩, hcloses, hmodule⟩ := parts_of_widget hm
  have hnil := eq_nil_of_trim hs hrest
  rw [hs, hnil, List.append_nil] at h
  obtain ⟨ts, heq, hts⟩ := h.at_keyword (by decide) (by decide) hbs hblank
  rw [List.cons.injEq] at heq
  obtain ⟨-, rfl⟩ := heq
  obtain ⟨m', vs, heq, hq⟩ := hts.at_module hcloses
  obtain ⟨hf, rfl⟩ := hclause.of_quoted heq
  obtain ⟨q, hq⟩ := hq hfits.plain
  rw [Pattern.Match.get, hmodule]
  have hkeeps : f.clause.Keeps none [] := hf ▸ .nothing
  exact Taken.parts hkeeps hq

theorem taken_of_written (hf : f.Written text) (hfits : f.Fits) (i : Imports) :
    (hasHead (trim text) "import " = false ∧ i.take? text = none) ∨
      hasHead (trim text) "import " = true ∧ ∃ i', i.take? text = some i' ∧ Taken f text i i' := by
  obtain ⟨ts, ⟨us, stop, hclause, -, rfl⟩, hlaid⟩ := hf
  have hlaid : Laid (.keyword "import" :: (us ++ .quoted f.module :: stop)) (trim text).toList := by
    rw [trim, String.toList_ofList]
    exact hlaid.trim
  unfold Imports.take?
  dsimp only
  split_ifs with hhead
  · exact .inl ⟨by simpa using hhead, rfl⟩
  · refine .inr ⟨by simpa using hhead, ?_⟩
    split
    · next m hm =>
      obtain ⟨m', hm', hgroups⟩ := Option.bind_eq_some_iff.1 hm
      split_ifs at hgroups with hsome
      cases hgroups
      refine ⟨_, rfl, ?_⟩
      have htaken := taken_of_component (i := i) hclause hfits hlaid hm' hsome
      cases hgroup : m.group? 1 <;> simpa [takeParts, takeDefault, namesIn, hgroup] using htaken
    · split
      · next m hm => exact ⟨_, rfl, taken_of_widget hclause hfits hlaid hm⟩
      · exact ⟨_, rfl, .whole⟩

end Statements

end WidgetBridge.ComponentGrammar
