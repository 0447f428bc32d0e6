import WidgetBridge.Proofs.WidgetGrammar.Expressions
import WidgetBridge.Writing.WidgetCode

/-!
# Pieces of widget source read back

A written call is read as a call with its arguments, on one line as well as with each argument on a
line of its own (`reads_callText`), and a written list as a list (`reads_listText`).  A run of texts
and slots becomes one text literal, whose parts give the run back (`reads_textLiteral`).
-/

namespace WidgetBridge.Writing

open WidgetBridge.Text WidgetBridge.WidgetGrammar

/-! ## Calls and lists -/

/-- A text that starts with something else than a slash is no comment. -/
theorem isComment_of_head {a : String} (h : ∀ c ∈ a.toList.head?, c ≠ '/') :
    isComment a = false := by
  have hhead : hasHead a "/*" = false := by
    unfold hasHead
    cases ha : a.toList with
    | nil => rfl
    | cons c cs =>
      have := dropHead?_cons_of_ne (Ne.symm (h c (by simp [ha]))) ['*'] cs
      simpa using this
  simp [isComment, hhead]

theorem reads_callText {callee : String} (hcallee : isCallable callee = true) {args : List String}
    {specs : List ArgSpec} (h : List.Forall₂ Phrase args (specs.map ReadsArg))
    (hcomment : ∀ a ∈ args, isComment a = false) {indent : String} (hi : isIndent indent = true) :
    Reads (callText callee args indent) (IsCall callee specs) := by
  unfold callText
  split_ifs with hempty
  · -- Without arguments there is nothing between the brackets.
    rw [List.isEmpty_iff] at hempty
    subst hempty
    cases specs with
    | cons spec specs => cases h
    | nil =>
      have hcall := reads_call hcallee (show Listing "" (List.map ReadsArg []) from listing_nil) ""
        (by decide)
      rw [show ("()" : String) = "(" ++ ")" from rfl]
      simpa only [String.append_assoc, String.append_empty, String.empty_append] using hcall
  · have hne : args ≠ [] := by simpa using hempty
    dsimp only
    split_ifs
    · have hcall := reads_call hcallee (listing_inline h) "" (by decide)
      simpa only [String.append_empty] using hcall
    · have hbody : (args.map fun a =>
          indentLines indent (if isComment a = true then a else a ++ ",")) =
          args.map fun a => indentLines indent (a ++ ",") :=
        List.map_congr_left fun a ha => by simp [hcomment a ha]
      have hcall := reads_call hcallee (listing_lines hi h hne) "\n" (by decide)
      rw [hbody, show ("(\n" : String) = "(" ++ "\n" from rfl,
        show ("\n)" : String) = "\n" ++ ")" from rfl]
      simpa only [String.append_assoc] using hcall

theorem reads_listText {items : List String} {Ps : List (Expr → Prop)}
    (h : List.Forall₂ Reads items Ps) {indent : String} (hi : isIndent indent = true) :
    Reads (listText items indent) (IsList Ps) := by
  have h : List.Forall₂ Phrase items (Ps.map ReadsAs) := List.forall₂_map_right_iff.2 h
  unfold listText
  split_ifs with hempty
  · rw [List.isEmpty_iff] at hempty
    subst hempty
    cases Ps with
    | cons P Ps => cases h
    | nil =>
      have hlist := reads_list (show Listing "" (List.map ReadsAs []) from listing_nil) ""
        (by decide)
      rw [show ("[]" : String) = "[" ++ "]" from rfl]
      simpa only [String.append_assoc, String.append_empty, String.empty_append] using hlist
  · have hne : items ≠ [] := by simpa using hempty
    have hlist := reads_list (listing_lines hi h hne) "\n" (by decide)
    rw [show ("[\n" : String) = "[" ++ "\n" from rfl, show ("\n]" : String) = "\n" ++ "]" from rfl]
    simpa only [String.append_assoc] using hlist

/-! ## Runs of text -/

/-- The part of a literal that a node of a run is. -/
def partOf : Node → Part
  | .text s => .text s
  | .slot source => .hole source
  | .element _ _ => .text ""

theorem toList_literalPieces (nodes : List Node) :
    (String.join (nodes.map literalPiece)).toList = bodyOf (nodes.map partOf) := by
  induction nodes with
  | nil => rfl
  | cons n ns ih =>
    rw [List.map_cons, List.map_cons, String.join_cons, String.toList_append, ih, bodyOf_cons]
    congr 1
    cases n <;> simp [literalPiece, partOf, Part.body, escape]

theorem textLiteral_eq (nodes : List Node) :
    textLiteral nodes = String.ofList (quoted (nodes.map partOf)) := by
  rw [← String.toList_inj, textLiteral, String.toList_append, String.toList_append,
    toList_literalPieces]
  simp [quoted]

/-- A run of texts and slots that stays apart when it is written: texts are not empty, no two of
them are adjacent, and slots are names. -/
def IsRun : List Node → Prop
  | [] => True
  | .text s :: ns => s ≠ "" ∧ (∀ t, ns.head? ≠ some (.text t)) ∧ IsRun ns
  | .slot source :: ns => isName source = true ∧ IsRun ns
  | .element _ _ :: _ => False

theorem IsRun.not_element {ns : List Node} (h : IsRun ns) : ∀ n ∈ ns, n.isElement = false := by
  fun_induction IsRun ns with
  | case1 => simp
  | case2 s ns ih => exact List.forall_mem_cons.2 ⟨rfl, ih h.2.2⟩
  | case3 source ns ih => exact List.forall_mem_cons.2 ⟨rfl, ih h.2⟩
  | case4 => exact h.elim

theorem isHole_of_isName {s : String} (h : isName s = true) : IsHole s := by
  obtain ⟨c, cs, hs, hc, hcs⟩ := isName_iff.1 h
  have hname : ∀ d ∈ s.toList, isNameChar d = true := by
    rw [hs]
    exact List.forall_mem_cons.2 ⟨isNameChar_of_isNameStart hc, hcs⟩
  have hne : ∀ d ∈ s.toList, ∀ e, isNameChar e = false → d ≠ e := by
    rintro d hd e he rfl
    simp [hname d hd] at he
  refine ⟨fun d hd => ⟨hne d hd _ (by decide), hne d hd _ (by decide)⟩, ?_,
    trimChars_of_no_blank fun d hd => not_isBlank_of_isNameChar (hname d hd)⟩
  have hbraces : ∀ cs : List Char, (∀ d ∈ cs, d ≠ '\x7b' ∧ d ≠ '\x7d') →
      closesBraces 0 cs = true := by
    intro cs hcs
    induction cs with
    | nil => rfl
    | cons d ds ih =>
      have hd := hcs d List.mem_cons_self
      simp [closesBraces, hd.1, hd.2, ih fun e he => hcs e (List.mem_cons_of_mem _ he)]
  exact hbraces _ fun d hd => ⟨hne d hd _ (by decide), hne d hd _ (by decide)⟩

theorem IsRun.settled {ns : List Node} (h : IsRun ns) : Settled (ns.map partOf) := by
  fun_induction IsRun ns with
  | case1 => trivial
  | case2 s ns ih =>
    refine ⟨h.1, fun t ht => ?_, ih h.2.2⟩
    cases ns with
    | nil => cases ht
    | cons n ns =>
      cases n with
      | text u => exact h.2.1 u rfl
      | slot source => cases ht
      | element e cs => exact h.2.2
  | case3 source ns ih => exact ih h.2
  | case4 => exact h.elim

theorem IsRun.isName_of_mem {ns : List Node} (h : IsRun ns) {source : String}
    (hs : Part.hole source ∈ ns.map partOf) : isName source = true := by
  fun_induction IsRun ns with
  | case1 => cases hs
  | case2 s ns ih => exact ih h.2.2 (by simpa [partOf] using hs)
  | case3 source' ns ih =>
    rcases List.mem_cons.1 hs with hs | hs
    · cases hs
      exact h.1
    · exact ih h.2 hs
  | case4 => exact h.elim

theorem mergeParts_of_settled {parts : List Part} (h : Settled parts) :
    mergeParts parts = parts := by
  fun_induction Settled parts with
  | case1 => rfl
  | case2 source ps ih => rw [mergeParts, ih h]
  | case3 s ps ih =>
    rw [mergeParts, ih h.2.2]
    cases ps with
    | nil => rfl
    | cons p ps =>
      cases p with
      | text t => exact absurd rfl (h.2.1 t)
      | hole source => rfl

/-- The literal of a run is read as the parts of the run. -/
theorem reads_textLiteral {nodes : List Node} (h : IsRun nodes) :
    Phrase (textLiteral nodes)
      (ReadsArg (none, fun e => ∃ r, e = .string r (nodes.map partOf))) := by
  have hp : ∀ p ∈ nodes.map partOf, p.Writable := by
    intro p hp
    cases p with
    | text s => trivial
    | hole source => exact isHole_of_isName (h.isName_of_mem hp)
  have hsingle := single_literal hp fun source hs =>
    newline_not_mem_of_isName (h.isName_of_mem hs)
  rw [textLiteral_eq]
  refine hsingle.phrase fun t ht follow => ⟨_, rfl, Nat.le_refl _, ?_⟩
  have := readsAs_literal ht follow
  rwa [fused_eq_self h.settled, mergeParts_of_settled h.settled] at this

end WidgetBridge.Writing
