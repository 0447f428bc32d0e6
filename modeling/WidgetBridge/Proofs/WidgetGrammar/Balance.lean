import WidgetBridge.Proofs.WidgetGrammar.Scanners
import WidgetBridge.Proofs.WidgetGrammar.Transplant

/-!
# Balanced brackets

A sequence of brackets is `WellNested` if it consists of groups: an opening bracket, a well nested
sequence, and the closing bracket of the same kind.  The scanner finds this out with a stack of open
brackets; what it still has to read then closes these brackets and is well nested between them
(`Unwinds`).

`lexemesFrom` cuts off lexemes without a look at the brackets.  The scanner does the same and keeps
the stack (`scanFrom_eq`), so that a source is read if all of it is lexemes and the brackets are
well nested, and not otherwise (`scan_eq_ok_iff`).
-/

namespace WidgetBridge.WidgetGrammar

open WidgetBridge.Text

/-! ## Sequences of brackets -/

/-- A sequence of brackets that pair off by kind, without crossing. -/
inductive WellNested : List String → Prop
  | nil : WellNested []
  | group {o c : String} {inner rest : List String} : closerOf o = some c → WellNested inner →
    WellNested rest → WellNested (o :: (inner ++ c :: rest))

/-- A sequence of brackets that closes those of a stack one by one, and is well nested between and
after them. -/
inductive Unwinds : List String → List String → Prop
  | nil {bs : List String} : WellNested bs → Unwinds [] bs
  | close {o c : String} {stack inner rest : List String} : closerOf o = some c → WellNested inner →
    Unwinds stack rest → Unwinds (o :: stack) (inner ++ c :: rest)

/-- The bracket on top of the stack is read before what closes it. -/
theorem Unwinds.uncover {o : String} {stack bs : List String} (h : Unwinds (o :: stack) bs) :
    Unwinds stack (o :: bs) := by
  cases h with
  | close hclose hinner hrest =>
    cases hrest with
    | nil hrest => exact .nil (.group hclose hinner hrest)
    | close hclose' hinner' hrest' =>
      have hjoin := Unwinds.close hclose' (.group hclose hinner hinner') hrest'
      rwa [List.cons_append, List.append_assoc, List.cons_append] at hjoin

/-! ## The stack -/

section Stack

variable {stack : List (String × Place)} {l : Lexeme} {ls : List Lexeme}

/-- The brackets that are open after some lexemes, the innermost first. -/
def openAfter (stack : List (String × Place)) (ls : List Lexeme) :
    Attempt (List (String × Place)) :=
  ls.foldlM (fun stack l => nextOpen stack l.kind l.text l.place) stack

theorem openAfter_cons : openAfter stack (l :: ls) =
    (nextOpen stack l.kind l.text l.place).bind fun next => openAfter next ls := rfl

theorem openAfter_append (ms : List Lexeme) :
    openAfter stack (ls ++ ms) = (openAfter stack ls).bind fun next => openAfter next ms :=
  List.foldlM_append

/-- Only brackets change the stack. -/
theorem openAfter_filter (p : Lexeme → Bool) (hp : ∀ l ∈ ls, p l = false → l.isBracket = false) :
    openAfter stack (ls.filter p) = openAfter stack ls := by
  induction ls generalizing stack with
  | nil => rfl
  | cons l ls ih =>
    obtain ⟨hl, hls⟩ := List.forall_mem_cons.1 hp
    cases hkeep : p l with
    | true =>
      rw [List.filter_cons_of_pos hkeep, openAfter_cons, openAfter_cons]
      congr 1
      funext next
      exact ih hls
    | false =>
      rw [List.filter_cons_of_neg (by simp [hkeep]), ih hls, openAfter_cons,
        nextOpen_of_plain (hl hkeep)]
      rfl

/-! ## Stack and sequence -/

/-- The brackets among some lexemes. -/
def bracketTexts (ls : List Lexeme) : List String := (ls.filter Lexeme.isBracket).map Lexeme.text

theorem bracketTexts_of_bracket (h : l.isBracket = true) :
    bracketTexts (l :: ls) = l.text :: bracketTexts ls := by
  rw [bracketTexts, List.filter_cons_of_pos h, List.map_cons]
  rfl

theorem bracketTexts_of_plain (h : l.isBracket = false) :
    bracketTexts (l :: ls) = bracketTexts ls := by
  rw [bracketTexts, List.filter_cons_of_neg (by simp [h])]
  rfl

/-- Lexemes that leave no bracket open close those that were open before. -/
theorem unwinds_of_openAfter (h : openAfter stack ls = .ok []) :
    Unwinds (stack.map Prod.fst) (bracketTexts ls) := by
  induction ls generalizing stack with
  | nil =>
    cases h
    exact .nil .nil
  | cons l ls ih =>
    obtain ⟨next, hnext, hls⟩ := exists_of_bind_ok h
    have hls := ih hls
    rcases nextOpen_cases hnext with ⟨hopens, rfl⟩ | ⟨hcloses, o, rfl, ho⟩ | ⟨hplain, rfl⟩
    · rw [bracketTexts_of_bracket (by simp [Lexeme.isBracket, hopens])]
      exact hls.uncover
    · rw [bracketTexts_of_bracket (by simp [Lexeme.isBracket, hcloses])]
      exact .close ho .nil hls
    · rwa [bracketTexts_of_plain hplain]

theorem kind_of_isBracket (h : l.isBracket = true) : l.kind = .punct := by
  rcases Bool.or_eq_true_iff.1 h with h | h
  · exact beq_iff_eq.1 (Bool.and_eq_true_iff.1 h).1
  · exact beq_iff_eq.1 (Bool.and_eq_true_iff.1 h).1

/-- Well nested brackets leave the stack as it was. -/
theorem openAfter_of_wellNested {bs : List String} (h : WellNested bs)
    (hls : ∀ l ∈ ls, l.isBracket = true) (htexts : ls.map Lexeme.text = bs)
    (stack : List (String × Place)) : openAfter stack ls = .ok stack := by
  induction h generalizing ls stack with
  | nil =>
    rw [List.map_eq_nil_iff.1 htexts]
    rfl
  | group hclose hinner hrest ihinner ihrest =>
    obtain ⟨o, os, rfl, rfl, hosTexts⟩ := List.map_eq_cons_iff.1 htexts
    obtain ⟨inner, cs, rfl, hinnerTexts, hcsTexts⟩ := List.map_eq_append_iff.1 hosTexts
    obtain ⟨c, rest, rfl, rfl, hrestTexts⟩ := List.map_eq_cons_iff.1 hcsTexts
    obtain ⟨ho, hosAll⟩ := List.forall_mem_cons.1 hls
    obtain ⟨hinnerAll, hcsAll⟩ := List.forall_mem_append.1 hosAll
    obtain ⟨hc, hrestAll⟩ := List.forall_mem_cons.1 hcsAll
    have hopens : o.opens = true := by
      simp [Lexeme.opens, kind_of_isBracket ho, hclose]
    have hcloses : c.closes = true := by
      simp [Lexeme.closes, kind_of_isBracket hc, openerOf_of_closerOf hclose]
    have hpop : nextOpen ((o.text, o.place) :: stack) c.kind c.text c.place = .ok stack :=
      (nextOpen_of_closes hcloses).2 ⟨_, rfl, hclose⟩
    rw [openAfter_cons, nextOpen_of_opens hopens, Except.bind, openAfter_append,
      ihinner hinnerAll hinnerTexts, Except.bind, openAfter_cons, hpop, Except.bind]
    exact ihrest hrestAll hrestTexts stack

/-- The stack tells whether brackets are well nested. -/
theorem openAfter_eq_nil_iff : openAfter [] ls = .ok [] ↔ WellNested (bracketTexts ls) := by
  constructor
  · intro h
    have hunwinds := unwinds_of_openAfter h
    cases hunwinds with
    | nil hnested => exact hnested
  · intro h
    rw [← openAfter_filter Lexeme.isBracket fun l hl hplain => hplain]
    exact openAfter_of_wellNested h (fun l hl => (List.mem_filter.1 hl).2) rfl []

end Stack

/-! ## Lexemes without brackets -/

/-- Cuts the text from a place on into lexemes, whatever their brackets, and says where a scanner
gave up. -/
def lexemesFrom (blank : List Char) (spot : Spot) : List Char → List Lexeme × Option Failure
  | [] => ([], none)
  | c :: cs =>
    if isBlank c then lexemesFrom (c :: blank) (spot.step c) cs
    else match cutLexeme c cs with
      | .error (.at distance message) =>
        ([], some (.malformed message (spot.advance ((c :: cs).take distance)).place))
      | .error (.other cause) => ([], some cause)
      | .ok cut =>
        let chars := c :: cs.take cut.more
        let rest := lexemesFrom [] (spot.advance chars) (cs.drop cut.more)
        ({ kind := cut.kind, text := String.ofList chars, blank := String.ofList blank.reverse
           offset := spot.offset, place := spot.place, parts := cut.parts } :: rest.1, rest.2)
  termination_by cs => cs.length
  decreasing_by
    · simp
    · simp only [List.length_cons, List.length_drop]; omega

/-- The lexemes of a source up to its end or to the first one that cannot be cut off. -/
def lexemesOf (source : String) : List Lexeme × Option Failure := lexemesFrom [] {} source.toList

/-- What becomes of a source whose scanner has stopped with some brackets open. -/
def settle (fault : Option Failure) (open_ : List (String × Place)) : Attempt Unit :=
  match fault, open_ with
  | some f, _ => .error f
  | none, [] => .ok ()
  | none, (text, place) :: _ => .error (.malformed ("unclosed '" ++ text ++ "'") place)

/-- The scanner cuts off lexemes and, apart from that, keeps the stack of open brackets. -/
theorem scanFrom_eq (stack : List (String × Place)) (blank : List Char) (spot : Spot)
    (cs : List Char) :
    scanFrom stack blank spot cs = (openAfter stack (lexemesFrom blank spot cs).1).bind fun open_ =>
      (settle (lexemesFrom blank spot cs).2 open_).map fun _ => (lexemesFrom blank spot cs).1 := by
  fun_induction scanFrom stack blank spot cs with
  | case1 blank spot =>
    rw [lexemesFrom.eq_def]
    rfl
  | case2 blank spot text place rest =>
    rw [lexemesFrom.eq_def]
    rfl
  | case3 stack blank spot c cs hblank ih =>
    rw [ih, lexemesFrom.eq_def _ _ (c :: cs)]
    dsimp only
    rw [if_pos hblank]
  | case4 stack blank spot c cs hblank distance message hcut =>
    rw [lexemesFrom.eq_def]
    dsimp only
    rw [if_neg hblank, hcut]
    rfl
  | case5 stack blank spot c cs hblank f hcut =>
    rw [lexemesFrom.eq_def]
    dsimp only
    rw [if_neg hblank, hcut]
    rfl
  | case6 stack blank spot c cs hblank cut hcut chars text =>
    rename_i ih
    rw [lexemesFrom.eq_def]
    dsimp only
    rw [if_neg hblank, hcut]
    dsimp only
    rw [openAfter_cons]
    change (nextOpen stack cut.kind text spot.place).bind _ =
      ((nextOpen stack cut.kind text spot.place).bind _).bind _
    cases nextOpen stack cut.kind text spot.place with
    | error f => rfl
    | ok next =>
      change (scanFrom next [] (spot.advance chars) (cs.drop cut.more)).bind _ =
        (openAfter next _).bind _
      rw [ih next]
      generalize lexemesFrom [] (spot.advance chars) (cs.drop cut.more) = ls
      cases openAfter next ls.1 with
      | error f => rfl
      | ok open_ =>
        change ((settle ls.2 open_).map _).bind _ = (settle ls.2 open_).map _
        cases settle ls.2 open_ <;> rfl

/-- The lexemes of a source, if it can be read. -/
theorem scan_eq_ok_iff {source : String} {ls : List Lexeme} :
    Lexeme.scan source = .ok ls ↔ lexemesOf source = (ls, none) ∧ WellNested (bracketTexts ls) := by
  rw [Lexeme.scan, scanFrom_eq, ← lexemesOf, ← openAfter_eq_nil_iff]
  obtain ⟨ms, fault⟩ := lexemesOf source
  dsimp only
  constructor
  · intro h
    cases hopen : openAfter [] ms with
    | error f =>
      rw [hopen] at h
      cases h
    | ok open_ =>
      rw [hopen] at h
      cases fault with
      | some f => cases h
      | none =>
        cases open_ with
        | nil =>
          cases h
          exact ⟨rfl, hopen⟩
        | cons b open_ => cases h
  · rintro ⟨heq, hopen⟩
    cases heq
    rw [hopen]
    rfl

/-- Where the brackets of a source are well nested, it is read, or a scanner has given up. -/
theorem scan_of_wellNested {source : String} (h : WellNested (bracketTexts (lexemesOf source).1)) :
    Lexeme.scan source = (settle (lexemesOf source).2 []).map fun _ => (lexemesOf source).1 := by
  rw [Lexeme.scan, scanFrom_eq, ← lexemesOf, openAfter_eq_nil_iff.2 h]
  rfl

theorem message_of_lexemesFrom {blank : List Char} {spot : Spot} {cs : List Char} {message : String}
    {place : Place} (h : (lexemesFrom blank spot cs).2 = some (.malformed message place)) :
    message ∈ faultMessages := by
  fun_induction lexemesFrom blank spot cs with
  | case1 => cases h
  | case2 blank spot c cs hblank ih => exact ih h
  | case3 blank spot c cs hblank distance message' hcut =>
    cases h
    exact (isIn_of_cutLexeme hcut).2.2
  | case4 blank spot c cs hblank cause hcut =>
    cases h
    exact absurd ⟨message, place, rfl⟩ (LexFault.not_placed (isIn_of_cutLexeme hcut))
  | case5 blank spot c cs hblank cut hcut chars rest ih => exact ih h

end WidgetBridge.WidgetGrammar
