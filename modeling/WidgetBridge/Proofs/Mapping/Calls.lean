import WidgetBridge.Proofs.Mapping.Numerals

/-!
# Calls with numbers

The constructors of colours, insets and radii are called with one number (`callOne`) or with four
(`callFour`).  Such a call is matched as a whole by the pattern of its constructor, and the numbers
are what the groups keep.
-/

namespace WidgetBridge.Mapping

open WidgetBridge.Text WidgetBridge.Number Pattern

/-- A call has no blanks around it. -/
theorem trim_eq_self {s : String} {c : Char} (hfirst : s.toList.head? = some c)
    (hlast : s.toList.getLast? = some ')') (hc : isBlank c = false) : trim s = s := by
  have hends : trimChars s.toList = s.toList := by
    refine trimChars_of_ends (fun d hd => ?_) fun d hd => ?_
    · cases hfirst.symm.trans hd
      exact hc
    · cases hlast.symm.trans hd
      decide
  rw [trim, hends, String.ofList_toList]

theorem stripConst_eq_self {s : String} {c : Char} (hfirst : s.toList.head? = some c)
    (hlast : s.toList.getLast? = some ')') (hc : isBlank c = false ∧ c ≠ 'c') :
    stripConst s = s := by
  have hhead : hasHead s "const " = false := by
    rw [hasHead, dropHead?_of_differ, Option.isSome_none]
    cases hs : s.toList with
    | nil => simp [hs] at hfirst
    | cons d ds =>
      obtain rfl : d = c := by simpa [hs] using hfirst
      simp [differ, hc.2.symm]
  unfold stripConst
  simp only [trim_eq_self hfirst hlast hc.1, hhead, Bool.false_eq_true, if_false]

theorem getLast?_close (s : String) : (s ++ ")").toList.getLast? = some ')' := by
  rw [String.toList_append]
  exact List.getLast?_concat

/-- A call with one number. -/
def callOne (head n : String) : String := head ++ n ++ ")"

/-- A call with four numbers. -/
def callFour (head a b c d : String) : String :=
  head ++ a ++ ", " ++ b ++ ", " ++ c ++ ", " ++ d ++ ")"

theorem toList_callOne (head n : String) :
    (callOne head n).toList = head.toList ++ (n.toList ++ [')']) := by
  unfold callOne
  simp

theorem toList_callFour (head a b c d : String) : (callFour head a b c d).toList =
    head.toList ++
      (a.toList ++
      (",".toList ++ (' ' :: b.toList ++ (",".toList ++ (' ' :: c.toList ++ (",".toList ++
      (' ' :: d.toList ++ [')']))))))) := by
  unfold callFour
  simp

section Strip

variable {head : String} {c : Char} (hhead : head.toList.head? = some c)
    (hc : isBlank c = false ∧ c ≠ 'c')

include hhead hc

theorem stripConst_callOne (n : String) : stripConst (callOne head n) = callOne head n := by
  refine stripConst_eq_self ?_ (getLast?_close _) hc
  rw [toList_callOne, List.head?_append, hhead, Option.some_or]

theorem stripConst_callFour (a b c d : String) :
    stripConst (callFour head a b c d) = callFour head a b c d := by
  refine stripConst_eq_self ?_ (getLast?_close _) hc
  rw [toList_callFour, List.head?_append, hhead, Option.some_or]

end Strip

/-! ## Matches -/

/-- The pattern of a call with one number. -/
def oneNumber (head : String) : Pattern :=
  textStart ++ lit head ++ Form.spaced 1 ++ lit ")" ++ textEnd

/-- The pattern of a call with four numbers. -/
def fourNumbers (head : String) : Pattern :=
  textStart ++ lit head ++ Form.spaced 1 ++ Form.comma ++ Form.spaced 2 ++ Form.comma ++
    Form.spaced 3 ++ Form.comma ++
    Form.spaced 4 ++ lit ")" ++ textEnd

theorem oneNumber_matchStart? (head : String) {n : String} (hn : IsNumeral n.toList) :
    ∃ m, (oneNumber head).matchStart? (callOne head n) = some m ∧ m.get 1 = n := by
  have hopens :=
    ((((opens_textStart _).seq (takes_lit head _)).seq (takes_spaced_first hn (.inr rfl) [] 1)).seq
    (takes_lit ")" [])).seq_nil takes_textEnd
  exact ⟨_,
    matchStart?_of_opens (by simp [toList_callOne]) hopens, by simp [Match.get, Match.group?]⟩

theorem fourNumbers_matchStart? (head : String) {a b c d : String} (ha : IsNumeral a.toList)
    (hb : IsNumeral b.toList) (hc : IsNumeral c.toList) (hd : IsNumeral d.toList) :
    ∃ m, (fourNumbers head).matchStart? (callFour head a b c d) = some m ∧
      m.get 1 = a ∧ m.get 2 = b ∧ m.get 3 = c ∧ m.get 4 = d := by
  have hfirst := ((opens_textStart _).seq (takes_lit head _)).seq
    (takes_spaced_first ha (.inl rfl) (' ' :: b.toList ++
    (",".toList ++ (' ' :: c.toList ++ (",".toList ++ (' ' :: d.toList ++ (")".toList ++ [])))))) 1)
  have hsecond := (hfirst.seq (takes_lit "," _)).seq (takes_spaced_next hb (.inl rfl) _ 2)
  have hthird := (hsecond.seq (takes_lit "," _)).seq (takes_spaced_next hc (.inl rfl) _ 3)
  have hfourth := (hthird.seq (takes_lit "," _)).seq (takes_spaced_next hd (.inr rfl) _ 4)
  have hopens := (hfourth.seq (takes_lit ")" [])).seq_nil takes_textEnd
  refine ⟨_, matchStart?_of_opens (by simp [toList_callFour]) hopens, ?_⟩
  simp [Match.get, Match.group?, List.lookup_cons]

/-! ## Other calls -/

section Other

variable {s head : String} {cs : List Char} (hs : s.toList = head.toList ++ cs)

include hs

theorem ne_of_differ {t : String} (h : differ t.toList head.toList = true) : s ≠ t := by
  rintro rfl
  exact append_ne_of_differ (hs ▸ differ_append h cs) [] [] rfl

theorem refuses_head {head' : String} (h : differ head'.toList head.toList = true) :
    Refuses (textStart ++ lit head') s.toList := by
  refine (refuses_lit ?_).textStart
  rw [hs]
  exact differ_append h cs

theorem oneNumber_eq_none {head' : String} (h : differ head'.toList head.toList = true) :
    (oneNumber head').matchStart? s = none :=
  matchAt?_of_refuses ((((refuses_head hs h).seq _).seq _).seq _) [] 0

theorem fourNumbers_eq_none {head' : String} (h : differ head'.toList head.toList = true) :
    (fourNumbers head').matchStart? s = none :=
  matchAt?_of_refuses
    ((((((((((refuses_head hs h).seq _).seq _).seq _).seq _).seq _).seq _).seq _).seq _).seq _) [] 0

end Other

end WidgetBridge.Mapping
