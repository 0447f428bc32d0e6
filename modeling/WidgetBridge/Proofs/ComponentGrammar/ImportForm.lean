import Mathlib.Data.List.TakeWhile
import WidgetBridge.ComponentGrammar.Constant
import WidgetBridge.ComponentGrammar.Lexical
import WidgetBridge.Proofs.Text.CharClass

/-!
# Import statements

An import statement is a few words, marks and one quoted text, with white space between them.
`Laid ts cs` says that the tokens `ts` are laid out as the characters `cs`; the layout is free, but
the tokens can be told from the characters (`Laid.unique`).  `ImportForm.Reads` gives the tokens of
each form of statement, so that a text is the statement of one form at most
(`ImportForm.Written.unique`), and it makes sense to speak of what a text binds: `Binds`.
-/

namespace WidgetBridge.ComponentGrammar

open WidgetBridge.Text

/-! ## Tokens -/

/-- Whether a character can belong to a word.  A backslash starts a character that is written by its
number. -/
def isWordPart (c : Char) : Bool := Lexical.isNamePart c || c == '\\'

/-- A piece of an import statement. -/
inductive Token where
  /-- A name or a keyword. -/
  | word (cs : List Char)
  /-- A text with its quotes. -/
  | quoted (cs : List Char)
  | mark (c : Char)
  deriving DecidableEq

namespace Token

def chars : Token → List Char
  | .word cs => cs
  | .quoted cs => cs
  | .mark c => [c]

/-- A word that is given as a text. -/
def keyword (s : String) : Token := .word s.toList

end Token

/-- The marks of import statements. -/
def isMark (c : Char) : Bool := c == '\x7b' || c == '\x7d' || c == ',' || c == '*' || c == ';'

/-- The quotes of texts. -/
def isQuote (c : Char) : Bool := c == '"' || c == '\''

/-- What stands between quotes: the quote only behind a backslash, and no line feed. -/
inductive Enclosed (quote : Char) : List Char → Prop
  | nil : Enclosed quote []
  | plain {c : Char} {cs : List Char} (hquote : c ≠ quote) (hslash : c ≠ '\\') (hline : c ≠ '\n')
    (h : Enclosed quote cs) : Enclosed quote (c :: cs)
  | escaped {c : Char} {cs : List Char} (h : Enclosed quote cs) : Enclosed quote ('\\' :: c :: cs)

/-- Whether a token stands in front of some characters.  A word goes as far as it can. -/
def Token.IsAt : Token → List Char → Prop
  | .word cs, rest =>
    cs ≠ [] ∧ (∀ c ∈ cs, isWordPart c = true) ∧ ∀ c ∈ rest.head?, isWordPart c = false
  | .quoted cs, _ => ∃ quote inner, isQuote quote = true ∧ Enclosed quote inner ∧
      cs = quote :: (inner ++ [quote])
  | .mark c, _ => isMark c = true

/-- Tokens that are laid out, with white space around them. -/
inductive Laid : List Token → List Char → Prop
  | nil {bs : List Char} (hbs : ∀ b ∈ bs, isBlank b = true) : Laid [] bs
  | cons {bs : List Char} {t : Token} {ts : List Token} {rest : List Char}
    (hbs : ∀ b ∈ bs, isBlank b = true)
    (ht : t.IsAt rest) (hrest : Laid ts rest) : Laid (t :: ts) (bs ++ (t.chars ++ rest))

section Characters

variable {c : Char}

theorem isWordPart_of_isNameChar (h : isNameChar c = true) : isWordPart c = true := by
  simp only [isNameChar, Bool.or_eq_true, isNameStart_iff, isDigit_iff] at h
  have hlt : c.toNat < 128 := by omega
  have hall : ∀ n : Fin 128, isNameChar (Char.ofNat n) = true →
      isWordPart (Char.ofNat n) = true := by
    decide +kernel
  refine forall_ascii (p := fun c => isNameChar c = true → isWordPart c = true) hall hlt ?_
  simpa only [isNameChar, Bool.or_eq_true, isNameStart_iff, isDigit_iff] using h

theorem not_isWordPart_of_isBlank (h : isBlank c = true) : isWordPart c = false := by
  have hslash : (c == '\\') = false := by
    rw [beq_eq_false_iff_ne]
    rintro rfl
    cases h
  rw [isWordPart, hslash, Bool.or_false, Lexical.isNamePart, Lexical.isSpace, h]
  by_cases hcontrol : c.toNat < 0x20
  · simp [hcontrol]
  · have hrange : ¬ c.toNat ≤ 0x1F := by omega
    simp [hrange]

theorem not_isWordPart_of_isMark (h : isMark c = true) : isWordPart c = false := by
  simp only [isMark, Bool.or_eq_true, beq_iff_eq] at h
  rcases h with (((rfl | rfl) | rfl) | rfl) | rfl <;> decide

theorem not_isBlank_of_isMark (h : isMark c = true) : isBlank c = false := by
  simp only [isMark, Bool.or_eq_true, beq_iff_eq] at h
  rcases h with (((rfl | rfl) | rfl) | rfl) | rfl <;> decide

theorem not_isBlank_of_isWordPart (h : isWordPart c = true) : isBlank c = false := by
  by_contra hblank
  rw [not_isWordPart_of_isBlank (Bool.of_not_eq_false hblank)] at h
  cases h

theorem eq_of_isQuote (h : isQuote c = true) : c = '"' ∨ c = '\'' := by
  simpa [isQuote] using h

theorem not_isBlank_of_isQuote (h : isQuote c = true) : isBlank c = false := by
  rcases eq_of_isQuote h with rfl | rfl <;> decide

theorem not_isWordPart_of_isQuote (h : isQuote c = true) : isWordPart c = false := by
  rcases eq_of_isQuote h with rfl | rfl <;> decide

theorem not_isMark_of_isQuote (h : isQuote c = true) : isMark c = false := by
  rcases eq_of_isQuote h with rfl | rfl <;> decide

theorem ne_slash_of_isQuote (h : isQuote c = true) : c ≠ '\\' := by
  rcases eq_of_isQuote h with rfl | rfl <;> decide

end Characters

section Tokens

variable {t u : Token} {ts us : List Token} {cs ds bs rest rest' : List Char}

/-- Lists that are divided at the first place of the same member. -/
theorem eq_of_append_cons {α : Type} {a : α} {as bs cs ds : List α} (has : a ∉ as) (hcs : a ∉ cs)
    (h : as ++ a :: bs = cs ++ a :: ds) : as = cs ∧ bs = ds := by
  rcases List.append_eq_append_iff.1 h with ⟨es, hes, hbs⟩ | ⟨es, hes, hds⟩
  · cases es with
    | nil => simp_all
    | cons e es =>
      rw [List.cons_append, List.cons.injEq] at hbs
      simp [hes, hbs.1] at hcs
  · cases es with
    | nil => simp_all
    | cons e es =>
      rw [List.cons_append, List.cons.injEq] at hds
      simp [hes, hds.1] at has

theorem Enclosed.unique {quote : Char} (hslash : quote ≠ '\\') (h : Enclosed quote cs)
    (h' : Enclosed quote ds) (heq : cs ++ quote :: rest = ds ++ quote :: rest') :
    cs = ds ∧ rest = rest' := by
  induction h generalizing ds with
  | nil =>
    cases h' with
    | nil => exact ⟨rfl, (List.cons.inj heq).2⟩
    | plain hquote => exact absurd (List.cons.inj heq).1.symm hquote
    | escaped => exact absurd (List.cons.inj heq).1 hslash
  | plain hquote hplain hline h ih =>
    cases h' with
    | nil => exact absurd (List.cons.inj heq).1 hquote
    | plain hquote' hplain' hline' h' =>
      obtain ⟨rfl, hcons⟩ := List.cons.inj heq
      obtain ⟨rfl, hrest⟩ := ih h' hcons
      exact ⟨rfl, hrest⟩
    | escaped => exact absurd (List.cons.inj heq).1 hplain
  | escaped h ih =>
    cases h' with
    | nil => exact absurd (List.cons.inj heq).1.symm hslash
    | plain hquote hplain => exact absurd (List.cons.inj heq).1.symm hplain
    | escaped h' =>
      obtain ⟨rfl, hcons⟩ := List.cons.inj (List.cons.inj heq).2
      obtain ⟨rfl, hrest⟩ := ih h' hcons
      exact ⟨rfl, hrest⟩

/-- A token starts with a character that tells its kind. -/
theorem Token.IsAt.head (h : t.IsAt rest) : ∃ c cs, t.chars = c :: cs ∧
    match t with
    | .word _ => isWordPart c = true
    | .quoted _ => isQuote c = true
    | .mark _ => isMark c = true := by
  cases t with
  | word cs =>
    obtain ⟨hne, hall, -⟩ := h
    obtain ⟨c, cs, rfl⟩ := List.exists_cons_of_ne_nil hne
    exact ⟨c, cs, rfl, hall c List.mem_cons_self⟩
  | quoted cs =>
    obtain ⟨quote, inner, hquote, -, rfl⟩ := h
    exact ⟨quote, inner ++ [quote], rfl, hquote⟩
  | mark c => exact ⟨c, [], rfl, h⟩

theorem Token.IsAt.head_not_isBlank (h : t.IsAt rest) :
    ∃ c cs, t.chars = c :: cs ∧ isBlank c = false := by
  obtain ⟨c, cs, hchars, hkind⟩ := h.head
  refine ⟨c, cs, hchars, ?_⟩
  cases t with
  | word => exact not_isBlank_of_isWordPart hkind
  | quoted => exact not_isBlank_of_isQuote hkind
  | mark => exact not_isBlank_of_isMark hkind

theorem Token.IsAt.last_not_isBlank (h : t.IsAt rest) :
    ∃ c cs, t.chars = cs ++ [c] ∧ isBlank c = false := by
  cases t with
  | word cs =>
    obtain ⟨hne, hall, -⟩ := h
    exact ⟨cs.getLast hne, cs.dropLast, (List.dropLast_append_getLast hne).symm,
      not_isBlank_of_isWordPart (hall _ (List.getLast_mem hne))⟩
  | quoted cs =>
    obtain ⟨quote, inner, hquote, -, rfl⟩ := h
    exact ⟨quote, quote :: inner, rfl, not_isBlank_of_isQuote hquote⟩
  | mark c => exact ⟨c, [], rfl, not_isBlank_of_isMark h⟩

/-- A word is all of the word characters at its place. -/
theorem takeWhile_word (h : (Token.word cs).IsAt rest) :
    (cs ++ rest).takeWhile isWordPart = cs := by
  obtain ⟨-, hall, hrest⟩ := h
  rw [List.takeWhile_append_of_pos hall]
  cases rest with
  | nil => rw [List.takeWhile_nil, List.append_nil]
  | cons c rest =>
    have hc : isWordPart c = false := hrest c rfl
    rw [List.takeWhile_cons_of_neg (by simp [hc]), List.append_nil]

theorem Token.IsAt.unique (ht : t.IsAt rest) (hu : u.IsAt rest')
    (heq : t.chars ++ rest = u.chars ++ rest') :
    t = u ∧ rest = rest' := by
  obtain ⟨c, cs, hc, hkind⟩ := ht.head
  obtain ⟨d, ds, hd, hkind'⟩ := hu.head
  obtain rfl : c = d := by
    rw [hc, hd] at heq
    exact (List.cons.inj heq).1
  cases t with
  | word cs =>
    cases u with
    | word ds =>
      have hword : cs = ds := by
        rw [← takeWhile_word ht, show cs ++ rest = ds ++ rest' from heq, takeWhile_word hu]
      subst hword
      exact ⟨rfl, List.append_cancel_left heq⟩
    | quoted => simp [not_isWordPart_of_isQuote hkind'] at hkind
    | mark => simp [not_isWordPart_of_isMark hkind'] at hkind
  | quoted cs =>
    cases u with
    | word => simp [not_isWordPart_of_isQuote hkind] at hkind'
    | quoted ds =>
      obtain ⟨quote, inner, hquote, hinner, rfl⟩ := ht
      obtain ⟨quote', inner', -, hinner', rfl⟩ := hu
      simp only [Token.chars, List.cons_append, List.append_assoc, List.cons.injEq] at heq
      obtain ⟨rfl, heq⟩ := heq
      obtain ⟨rfl, hrest⟩ := hinner.unique (ne_slash_of_isQuote hquote) hinner' heq
      exact ⟨rfl, hrest⟩
    | mark => simp [not_isMark_of_isQuote hkind] at hkind'
  | mark c =>
    cases u with
    | word => simp [not_isWordPart_of_isMark hkind] at hkind'
    | quoted => simp [not_isMark_of_isQuote hkind'] at hkind
    | mark d =>
      obtain ⟨rfl, hrest⟩ := List.cons.inj heq
      exact ⟨rfl, hrest⟩

/-! ## Layout -/

/-- White space in front does not matter. -/
theorem Laid.drop_blanks (h : Laid ts (bs ++ cs)) (hbs : ∀ b ∈ bs, isBlank b = true) :
    Laid ts cs := by
  induction bs with
  | nil => exact h
  | cons b bs ih =>
    rw [List.forall_mem_cons] at hbs
    refine ih ?_ hbs.2
    rw [List.cons_append] at h
    generalize hall : b :: (bs ++ cs) = all at h
    cases h with
    | nil hall' =>
      subst hall
      exact .nil (List.forall_mem_cons.1 hall').2
    | @cons blanks t ts rest hblanks ht hrest =>
      cases blanks with
      | nil =>
        obtain ⟨c, cs', hc, hblank⟩ := ht.head_not_isBlank
        rw [List.nil_append, hc, List.cons_append] at hall
        rw [← (List.cons.inj hall).1, hbs.1] at hblank
        cases hblank
      | cons d blanks =>
        rw [List.cons_append] at hall
        rw [(List.cons.inj hall).2]
        exact .cons (List.forall_mem_cons.1 hblanks).2 ht hrest

/-- Where no white space stands, the first token does. -/
theorem Laid.at_head {c : Char} (h : Laid (t :: ts) (c :: cs)) (hc : isBlank c = false) :
    ∃ rest, c :: cs = t.chars ++ rest ∧ t.IsAt rest ∧ Laid ts rest := by
  generalize hall : c :: cs = all at h
  cases h with
  | @cons blanks t ts rest hblanks ht hrest =>
    cases blanks with
    | nil => exact ⟨rest, rfl, ht, hrest⟩
    | cons b blanks =>
      rw [List.cons_append] at hall
      rw [(List.cons.inj hall).1, hblanks b List.mem_cons_self] at hc
      cases hc

theorem Laid.at_token (h : Laid (t :: ts) (u.chars ++ rest)) (hu : u.IsAt rest) :
    t = u ∧ Laid ts rest := by
  obtain ⟨c, cs, hc, hblank⟩ := hu.head_not_isBlank
  rw [hc, List.cons_append] at h
  obtain ⟨rest', heq, ht, hrest⟩ := h.at_head hblank
  rw [← List.cons_append, ← hc] at heq
  obtain ⟨rfl, rfl⟩ := hu.unique ht heq
  exact ⟨rfl, hrest⟩

/-- Characters are laid out tokens in one way. -/
theorem Laid.unique (h : Laid ts cs) (h' : Laid us cs) : ts = us := by
  induction h generalizing us with
  | @nil bs hbs =>
    cases h' with
    | nil => rfl
    | @cons blanks u us rest hblanks hu hrest =>
      obtain ⟨c, cs, hc, hblank⟩ := hu.head_not_isBlank
      have hmem : c ∈ blanks ++ (u.chars ++ rest) := by simp [hc]
      rw [hbs c hmem] at hblank
      cases hblank
  | @cons bs t ts rest hbs ht hrest ih =>
    have h' := h'.drop_blanks hbs
    cases us with
    | nil =>
      obtain ⟨c, cs, hc, hblank⟩ := ht.head_not_isBlank
      rw [hc, List.cons_append] at h'
      generalize hall : c :: (cs ++ rest) = all at h'
      cases h' with
      | nil hall' =>
        rw [hall' c (hall ▸ List.mem_cons_self)] at hblank
        cases hblank
    | cons u us =>
      obtain ⟨rfl, hus⟩ := h'.at_token ht
      rw [ih hus]

theorem Laid.blanks (hbs : ∀ b ∈ bs, isBlank b = true) (h : Laid ts cs) : Laid ts (bs ++ cs) := by
  cases h with
  | nil hcs => exact .nil (List.forall_mem_append.2 ⟨hbs, hcs⟩)
  | cons hcs ht hrest =>
    rw [← List.append_assoc]
    exact .cons (List.forall_mem_append.2 ⟨hbs, hcs⟩) ht hrest

theorem Laid.space (h : Laid ts cs) : Laid ts (' ' :: cs) := by
  have hspace : Laid ts ([' '] ++ cs) := h.blanks (forall_mem_of_all (by decide))
  exact hspace

theorem Laid.token (ht : t.IsAt rest) (h : Laid ts rest) : Laid (t :: ts) (t.chars ++ rest) := by
  have hcons : Laid (t :: ts) ([] ++ (t.chars ++ rest)) := .cons (List.forall_mem_nil _) ht h
  exact hcons

theorem Laid.mark {c : Char} (hc : isMark c = true) (h : Laid ts cs) :
    Laid (.mark c :: ts) (c :: cs) :=
  Laid.token (t := .mark c) hc h

/-- Whether a token stands in front of a text depends on the first character of the text at most. -/
theorem Token.IsAt.of_head (h : t.IsAt rest)
    (hhead : ∀ c ∈ rest'.head?, isWordPart c = false ∨ c ∈ rest.head?) : t.IsAt rest' := by
  cases t with
  | word cs => exact ⟨h.1, h.2.1, fun c hc => (hhead c hc).elim id (h.2.2 c)⟩
  | quoted cs => exact h
  | mark c => exact h

/-- A mark divides the layout. -/
theorem Laid.split {c : Char} (h : Laid (ts ++ .mark c :: us) cs) :
    ∃ body rest, cs = body ++ c :: rest ∧ Laid ts body ∧ Laid us rest := by
  induction ts generalizing cs with
  | nil =>
    cases h with
    | @cons bs t ts rest hbs ht hrest => exact ⟨bs, rest, rfl, .nil hbs, hrest⟩
  | cons t ts ih =>
    cases h with
    | @cons bs t ts rest hbs ht hrest =>
      obtain ⟨body, rest, rfl, hbody, hus⟩ := ih hrest
      refine ⟨bs ++ (t.chars ++ body), rest, by simp,
        .cons hbs (ht.of_head fun d hd => .inr ?_) hbody, hus⟩
      rw [List.head?_append, show body.head? = some d from hd]
      rfl

/-- Layouts one behind the other, if no word goes on. -/
theorem Laid.append (h : Laid ts cs) (hus : Laid us rest)
    (hrest : ∀ c ∈ rest.head?, isWordPart c = false) :
    Laid (ts ++ us) (cs ++ rest) := by
  induction h with
  | nil hbs => exact hus.blanks hbs
  | @cons bs t ts rest' hbs ht _ ih =>
    rw [List.append_assoc, List.append_assoc]
    refine .cons hbs (ht.of_head fun c hc => ?_) ih
    cases rest' with
    | nil => exact .inl (hrest c hc)
    | cons d rest' => exact .inr hc

/-- White space behind does not matter. -/
theorem Laid.drop_end (h : Laid ts (cs ++ bs)) (hbs : ∀ b ∈ bs, isBlank b = true) : Laid ts cs := by
  generalize hall : cs ++ bs = all at h
  induction h generalizing cs with
  | nil hcs =>
    subst hall
    exact .nil (List.forall_mem_append.1 hcs).1
  | @cons blanks t ts rest hblanks ht hrest ih =>
    rw [← List.append_assoc] at hall
    rcases List.append_eq_append_iff.1 hall with ⟨ds, hfirst, hlast⟩ | ⟨ds, hfirst, hlast⟩
    · -- the token does not reach into the white space, because its last character is no blank
      obtain rfl : ds = [] := by
        by_contra hne
        obtain ⟨c, cs', hc, hblank⟩ := ht.last_not_isBlank
        have hends := congrArg List.getLast? hfirst
        rw [hc, ← List.append_assoc, List.getLast?_concat,
          List.getLast?_append_of_ne_nil _ hne] at hends
        have hmem : c ∈ ds := List.mem_of_getLast? hends.symm
        rw [hbs c (hlast ▸ List.mem_append_left _ hmem)] at hblank
        cases hblank
      rw [List.append_nil] at hfirst
      rw [← hfirst, ← List.append_nil t.chars]
      have hend : Laid ts [] := ih hlast
      exact .cons hblanks (ht.of_head (fun c hc => by cases hc)) hend
    · rw [hfirst, List.append_assoc]
      refine .cons hblanks (ht.of_head fun c hc => .inr ?_) (ih hlast.symm)
      rw [hlast, List.head?_append, show ds.head? = some c from hc]
      rfl

theorem Laid.trim (h : Laid ts cs) : Laid ts (trimChars cs) := by
  have hstart : Laid ts (trimStartChars cs) := by
    rw [← List.takeWhile_append_dropWhile (p := isBlank) (l := cs)] at h
    exact h.drop_blanks fun b hb => List.mem_takeWhile_imp hb
  have hend : trimStartChars cs =
      trimChars cs ++ ((trimStartChars cs).reverse.takeWhile isBlank).reverse := by
    rw [trimChars, dropEndWhile, ← List.reverse_append, List.takeWhile_append_dropWhile,
      List.reverse_reverse]
  rw [hend] at hstart
  exact hstart.drop_end fun b hb => List.mem_takeWhile_imp (List.mem_reverse.1 hb)

/-- Nothing else stands between the tokens. -/
theorem Laid.mem {c : Char} (h : Laid ts cs) (hc : c ∈ cs) :
    isBlank c = true ∨ ∃ t ∈ ts, c ∈ t.chars := by
  induction h with
  | nil hbs => exact .inl (hbs c hc)
  | @cons bs t ts rest hbs ht hrest ih =>
    rcases List.mem_append.1 hc with hc | hc
    · exact .inl (hbs c hc)
    · rcases List.mem_append.1 hc with hc | hc
      · exact .inr ⟨t, List.mem_cons_self, hc⟩
      · exact (ih hc).imp_right fun ⟨u, hu, hmem⟩ => ⟨u, List.mem_cons_of_mem _ hu, hmem⟩

end Tokens

/-! ## Forms -/

/-- A specifier between braces: words and quoted texts. -/
def IsSpec (spec : List Token) : Prop := spec ≠ [] ∧ ∀ c, .mark c ∉ spec

/-- Specifiers with commas between them.  A comma may follow the last one. -/
inductive Listed : List (List Token) → List Token → Prop
  | nil : Listed [] []
  | last {spec : List Token} (hspec : IsSpec spec) : Listed [spec] spec
  | next {spec : List Token} {specs : List (List Token)} {ts : List Token} (hspec : IsSpec spec)
    (hrest : Listed specs ts) : Listed (spec :: specs) (spec ++ .mark ',' :: ts)

/-- What an import statement imports from its module. -/
inductive Clause where
  | nothing
  /-- The default, under a name. -/
  | main (name : List Char)
  | names (specs : List (List Token))
  | both (name : List Char) (specs : List (List Token))
  /-- Names that are types only. -/
  | types (specs : List (List Token))
  /-- The whole module, under a name. -/
  | whole (name : List Char)

/-- The tokens of a clause, with the word that leads on to the module. -/
inductive Clause.Reads : Clause → List Token → Prop
  | nothing : Reads .nothing []
  | main (name : List Char) : Reads (.main name) [.word name, .keyword "from"]
  | names {specs : List (List Token)} {ts : List Token} (h : Listed specs ts) :
    Reads (.names specs) (.mark '\x7b' :: (ts ++ [.mark '\x7d', .keyword "from"]))
  | both (name : List Char) {specs : List (List Token)} {ts : List Token} (h : Listed specs ts) :
    Reads (.both name specs)
      (.word name :: .mark ',' :: .mark '\x7b' :: (ts ++ [.mark '\x7d', .keyword "from"]))
  | types {specs : List (List Token)} {ts : List Token} (h : Listed specs ts) :
    Reads (.types specs)
      (.keyword "type" :: .mark '\x7b' :: (ts ++ [.mark '\x7d', .keyword "from"]))
  | whole (name : List Char) :
    Reads (.whole name) [.mark '*', .keyword "as", .word name, .keyword "from"]

/-- An import statement: what it imports, and its module as a text with quotes. -/
structure ImportForm where
  clause : Clause
  module : List Char

/-- The tokens of a statement.  It may end with a semicolon. -/
def ImportForm.Reads (f : ImportForm) (ts : List Token) : Prop :=
  ∃ us stop, f.clause.Reads us ∧ (stop = [] ∨ stop = [.mark ';']) ∧
    ts = .keyword "import" :: (us ++ .quoted f.module :: stop)

/-- Whether a text is a statement of some form. -/
def ImportForm.Written (f : ImportForm) (text : String) : Prop :=
  ∃ ts, f.Reads ts ∧ Laid ts text.toList

section Forms

variable {specs specs' : List (List Token)} {ts us us' rest rest' : List Token}
    {clause clause' : Clause}
  {f g : ImportForm} {text : String}

theorem Listed.isSpec (h : Listed specs ts) : ∀ spec ∈ specs, IsSpec spec := by
  induction h with
  | nil => exact List.forall_mem_nil _
  | last hspec => exact List.forall_mem_singleton.2 hspec
  | next hspec hrest ih => exact List.forall_mem_cons.2 ⟨hspec, ih⟩

theorem Listed.mark_not_mem (h : Listed specs ts) {c : Char} (hc : c ≠ ',') : .mark c ∉ ts := by
  induction h with
  | nil => exact List.not_mem_nil
  | last hspec => exact hspec.2 c
  | next hspec hrest ih => simp [hspec.2 c, hc, ih]

theorem Listed.unique (h : Listed specs ts) (h' : Listed specs' ts) : specs = specs' := by
  induction h generalizing specs' with
  | nil =>
    generalize hts : [] = ts at h'
    cases h' with
    | nil => rfl
    | last hspec => exact absurd hts.symm hspec.1
    | next => simp at hts
  | @last spec hspec =>
    generalize hts : spec = ts at h'
    cases h' with
    | nil => exact absurd hts hspec.1
    | last => subst hts; rfl
    | next =>
      subst hts
      exact absurd (List.mem_append_right _ List.mem_cons_self) (hspec.2 ',')
  | @next spec specs ts hspec hrest ih =>
    generalize hall : spec ++ .mark ',' :: ts = all at h'
    cases h' with
    | nil => simp at hall
    | last hspec' =>
      subst hall
      exact absurd (List.mem_append_right _ List.mem_cons_self) (hspec'.2 ',')
    | next hspec' hrest' =>
      obtain ⟨rfl, rfl⟩ := eq_of_append_cons (hspec.2 ',') (hspec'.2 ',') hall
      rw [ih hrest']

/-- The specifiers between braces are known, and so is the module behind them. -/
theorem Listed.unique_module {m m' : List Char} {t : Token} (h : Listed specs us)
    (h' : Listed specs' us')
    (heq : us ++ .mark '\x7d' :: t :: .quoted m :: rest =
      us' ++ .mark '\x7d' :: t :: .quoted m' :: rest') :
    specs = specs' ∧ m = m' := by
  obtain ⟨rfl, hrest⟩ := eq_of_append_cons (h.mark_not_mem (c := '\x7d') (by decide))
    (h'.mark_not_mem (by decide)) heq
  simp only [List.cons.injEq, Token.quoted.injEq, true_and] at hrest
  exact ⟨h.unique h', hrest.1⟩

/-- A clause is known from its tokens, and so is the module behind it. -/
theorem Clause.Reads.unique {m m' : List Char} (h : clause.Reads us) (h' : clause'.Reads us')
    (heq : us ++ .quoted m :: rest = us' ++ .quoted m' :: rest') : clause = clause' ∧ m = m' := by
  -- the first two tokens tell the clauses apart
  cases h <;> cases h' <;> simp [Token.keyword] at heq ⊢
  case nothing.nothing => exact heq.1
  case main.main => exact ⟨heq.1, heq.2.1⟩
  case names.names hs _ _ hs' => exact hs.unique_module hs' heq
  case both.both hs _ _ _ hs' =>
    obtain ⟨hname, heq⟩ := heq
    obtain ⟨hspecs, hmodule⟩ := hs.unique_module hs' heq
    exact ⟨⟨hname, hspecs⟩, hmodule⟩
  case types.types hs _ _ hs' => exact hs.unique_module hs' heq
  case whole.whole => exact ⟨heq.1, heq.2.1⟩

/-- A text is a statement of one form at most. -/
theorem ImportForm.Written.unique (hf : f.Written text) (hg : g.Written text) : f = g := by
  obtain ⟨ts, ⟨us, stop, hclause, -, rfl⟩, hts⟩ := hf
  obtain ⟨ts', ⟨us', stop', hclause', -, rfl⟩, hts'⟩ := hg
  have heq := hts.unique hts'
  rw [List.cons.injEq] at heq
  obtain ⟨hc, hm⟩ := hclause.unique hclause' heq.2
  cases f
  cases g
  exact congrArg₂ ImportForm.mk hc hm

end Forms

/-! ## What is bound -/

/-- How an import statement makes use of its module. -/
inductive ImportKind where
  /-- The module is run. -/
  | effect
  | main
  | name
  | type
  | whole
  deriving DecidableEq

/-- A part of a module that a statement imports.  The name is given by the tokens of its
specifier. -/
structure Bound where
  module : Attempt String
  kind : ImportKind
  name : List Token

/-- What a statement binds.  Every statement runs its module, but for one that imports types
only. -/
def ImportForm.bindings (f : ImportForm) : List Bound :=
  let bound := Bound.mk (decodeString (String.ofList f.module))
  match f.clause with
  | .nothing => [bound .effect []]
  | .main name => [bound .effect [], bound .main [.word name]]
  | .names specs => bound .effect [] :: specs.map (bound .name)
  | .both name specs => bound .effect [] :: bound .main [.word name] :: specs.map (bound .name)
  | .types specs => specs.map (bound .type)
  | .whole name => [bound .effect [], bound .whole [.word name]]

/-- Whether a text is an import statement that binds something. -/
def Binds (text : String) (b : Bound) : Prop := ∃ f : ImportForm, f.Written text ∧ b ∈ f.bindings

theorem ImportForm.Written.binds_iff {f : ImportForm} {text : String} (h : f.Written text)
    {b : Bound} :
    Binds text b ↔ b ∈ f.bindings :=
  ⟨fun ⟨_, hg, hb⟩ => h.unique hg ▸ hb, fun hb => ⟨f, h, hb⟩⟩

end WidgetBridge.ComponentGrammar
