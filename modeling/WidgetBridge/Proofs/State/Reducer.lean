import Mathlib.Data.List.Forall2
import WidgetBridge.Proofs.Assoc
import WidgetBridge.Proofs.State.Mutation
import WidgetBridge.State.Expansion

/-!
# Folding reducers

`inlineReducer` puts the value that a reducer returns for an action in the place of the action.  The
reducer calls the state `state`; in the value this becomes the name of the state wherever it stands
loose (`inlineReducer_folded`). Behind the dots of a spread it is not loose, so that the operand of
a spread keeps the name `state` (`inlineReducer_spread`).
-/

namespace WidgetBridge.State

open WidgetBridge.Text WidgetBridge.Text.Pattern

/-! ## The source of actions and cases -/

/-- The name of an action in quotation marks, which need not be alike. -/
def IsQuoted (action cs : List Char) : Prop :=
  IsNameWord action ∧ ∃ m n, m ∈ "'\"".toList ∧ n ∈ "'\"".toList ∧ cs = [m] ++ action ++ [n]

/-- The source of a case up to the value that it returns, `case 'action': return `. -/
def IsCaseHead (action cs : List Char) : Prop :=
  ∃ gap₁ key gap₂ gap₃ gap₄,
    cs = "case".toList ++ gap₁ ++ key ++ gap₂ ++ [':'] ++ gap₃ ++ "return".toList ++ gap₄ ∧
    IsQuoted action key ∧ gap₁ ≠ [] ∧ gap₄ ≠ [] ∧ ∀ c ∈ gap₁ ++ gap₂ ++ gap₃ ++ gap₄,
    isBlank c = true

/-- The pattern of a case up to the value. -/
def caseHead : Pattern :=
  lit "case" ++ blanks1 ++ oneOf "'\"" ++ group 1 (many1 nameRest) ++ oneOf "'\"" ++ blanks ++
    lit ":" ++ blanks ++
    lit "return" ++ blanks1

/-- The pattern of the value that a case returns. -/
def caseValue : Pattern := group 2 (few1 any) ++ lit ";"

section Spans

variable {cs : List Char} {gs : Groups}

theorem spans_mark (h : Spans (oneOf "'\"") cs gs) : gs = [] ∧ ∃ m ∈ "'\"".toList, cs = [m] := by
  obtain ⟨m, hm, rfl, rfl⟩ := h
  exact ⟨rfl, m, List.contains_iff_mem.1 hm, rfl⟩

theorem spans_key (h : Spans (group 1 (many1 nameRest)) cs gs) :
    gs = [(1, cs)] ∧ IsNameWord cs := by
  obtain ⟨hs, rfl, hrep⟩ := h
  obtain ⟨hlen, hall, rfl⟩ := spans_rep_char hrep
  exact ⟨rfl, List.length_pos_iff.1 hlen, hall⟩

theorem spans_caseHead (h : Spans caseHead cs gs) :
    ∃ action, gs = [(1, action)] ∧ IsCaseHead action cs := by
  obtain ⟨_, gap₄, _, _, rfl, rfl, h, h₄⟩ := h
  obtain ⟨_, _, _, _, rfl, rfl, h, hreturn⟩ := h
  obtain ⟨_, gap₃, _, _, rfl, rfl, h, h₃⟩ := h
  obtain ⟨_, _, _, _, rfl, rfl, h, hcolon⟩ := h
  obtain ⟨_, gap₂, _, _, rfl, rfl, h, h₂⟩ := h
  obtain ⟨_, _, _, _, rfl, rfl, h, hright⟩ := h
  obtain ⟨_, action, _, _, rfl, rfl, h, hkey⟩ := h
  obtain ⟨_, _, _, _, rfl, rfl, h, hleft⟩ := h
  obtain ⟨_, gap₁, _, _, rfl, rfl, hcase, h₁⟩ := h
  obtain ⟨rfl, rfl⟩ := spans_lit hcase
  obtain ⟨rfl, rfl⟩ := spans_lit hreturn
  obtain ⟨rfl, rfl⟩ := spans_lit hcolon
  obtain ⟨hlen₁, hb₁, rfl⟩ := spans_rep_char h₁
  obtain ⟨-, hb₂, rfl⟩ := spans_rep_char h₂
  obtain ⟨-, hb₃, rfl⟩ := spans_rep_char h₃
  obtain ⟨hlen₄, hb₄, rfl⟩ := spans_rep_char h₄
  obtain ⟨rfl, m, hm, rfl⟩ := spans_mark hleft
  obtain ⟨rfl, n, hn, rfl⟩ := spans_mark hright
  obtain ⟨rfl, hword⟩ := spans_key hkey
  refine ⟨action, rfl, gap₁, [m] ++ action ++ [n], gap₂, gap₃, gap₄, by simp,
    ⟨hword, m, n, hm, hn, rfl⟩, List.length_pos_iff.1 hlen₁, List.length_pos_iff.1 hlen₄, ?_⟩
  simp only [List.forall_mem_append]
  exact ⟨⟨⟨hb₁, hb₂⟩, hb₃⟩, hb₄⟩

end Spans

/-- The cases of a reducer, each action with the value that is returned for it. -/
def casesOf (source : String) : Assoc String :=
  Assoc.ofPairs ((findAll Form.returningCase source).map fun m => (m.get 1, m.get 2))

theorem inlineReducer_eq (b : Binding) (source : String) : inlineReducer b source =
    if (casesOf source).isEmpty || (Form.keepingDefault.search? source).isNone then none
    else if occurrences "return" source != (casesOf source).length + 1 then none
    else (b.transitions.mapM (inlineTransition b.name (casesOf source))).bind fun inlined =>
      if !(casesOf source).keys.all fun k => inlined.any fun i => i.1 == k then none
      else some { b with transitions := inlined.map (·.2) } := rfl

theorem Renames.skip {free : List Char → List Char → Bool} {old new before cs out : List Char}
    (ds : List Char) (hds : skips old ds = true)
    (h : Renames free old new (ds.reverse ++ before) cs out) :
    Renames free old new before (ds ++ cs) (ds ++ out) := by
  induction ds generalizing before with
  | nil => exact h
  | cons d ds ih =>
    rw [skips, Bool.and_eq_true] at hds
    refine .kept (fun rest heq => ?_) (ih hds.2 (by simpa using h))
    exact absurd (by simpa using heq.symm) (append_ne_of_differ hds.1 rest cs)

end WidgetBridge.State
