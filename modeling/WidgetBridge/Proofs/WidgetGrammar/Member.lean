import WidgetBridge.Proofs.WidgetGrammar.Expressions
import WidgetBridge.WidgetGrammar.Member

/-!
# Members of widget source

A source is cut into members, and each of them is told by its head.  A source that is a call is one
member, and no class.
-/

namespace WidgetBridge.WidgetGrammar

open WidgetBridge.Text

/-- The words by which classes are declared. -/
def classWords : List String := ["class", "mixin", "enum"]

/-- The text of the first token of a forest. -/
def headText (ts : List TokenTree) : String :=
  ((ts.head?.map TokenTree.first).map Token.text).getD ""

/-- A declaration that does not start like a class is none. -/
theorem exists_classify (s : Surroundings) (range : Range) (annotations : List String)
    {ts : List TokenTree} (h : headText (modifiersOf ts).2 ∉ classWords) :
    ∃ m, classify s range annotations ts = .ok m ∧ m.kind ≠ .classLike := by
  have hclass : classWords.contains (headText (modifiersOf ts).2) = false := by simpa using h
  dsimp only [classWords, headText] at hclass
  unfold classify
  simp only [hclass, Bool.false_eq_true, if_false]
  split_ifs with hempty hdirective
  · exact ⟨_, rfl, nofun⟩
  · exact ⟨_, rfl, nofun⟩
  · split
    · exact ⟨_, rfl, nofun⟩
    · split
      · split_ifs
        · refine ⟨_, rfl, ?_⟩
          dsimp only [functionMember]
          split_ifs <;> nofun
        · exact ⟨_, rfl, nofun⟩
      · exact ⟨_, rfl, nofun⟩

/-- The words with which a declaration may start. -/
def declarationWords : List String := classWords ++ modifierWords

theorem modifiersOf_leaf {t : Token} (h : t.text ∉ modifierWords) (ts : List TokenTree) :
    modifiersOf (.leaf t :: ts) = ([], .leaf t :: ts) := by
  simp [modifiersOf, h]

/-- A source that is a call is one member, which is no class. -/
theorem Range.Invokes.members {r : Range} {callee : String} (h : r.Invokes callee)
    (hcallee : callee ∉ declarationWords) {s : Source} (hs : s.trees = r.trees) :
    ∃ m, s.members = .ok [m] ∧ m.kind ≠ .classLike := by
  obtain ⟨n, o, vs, c, htrees, hn, ho⟩ := h
  simp only [declarationWords, List.mem_append, not_or] at hcallee
  have htext : n.text = callee := hn.text_eq
  have hend : n.isPunct ";" = false := hn.isPunct_eq ";"
  have heq : n.isPunct "=" = false := hn.isPunct_eq "="
  have harrow : n.isPunct "=>" = false := hn.isPunct_eq "=>"
  have hcurly : o.isPunct "\x7b" = false := ho.isPunct_eq "\x7b"
  have hmods := modifiersOf_leaf (t := n) (by rw [htext]; exact hcallee.2) [.group o vs c]
  have hhead : headText (modifiersOf [.leaf n, .group o vs c]).2 ∉ classWords := by
    rw [hmods]
    simpa [headText, TokenTree.first, htext] using hcallee.1
  obtain ⟨m, hm, hkind⟩ := exists_classify ⟨r.trees, none, none⟩ ⟨r.trees, none⟩ [] hhead
  have hdecl : declaration false [.leaf n, .group o vs c] = ([.leaf n, .group o vs c], []) := by
    simp [declaration, hend, heq, harrow, hcurly]
  have hannotations : annotationsOf 2 [.leaf n, .group o vs c] = ([], [.leaf n, .group o vs c]) :=
    rfl
  refine ⟨m, ?_, hkind⟩
  rw [htrees] at hm
  rw [Source.members, hs, htrees]
  simp only [membersFrom, List.length_cons, List.length_nil, hannotations, hdecl, List.flatten_nil,
    List.nil_append, List.map_nil, List.getLast?_nil, Option.map_none, Option.orElse_none, hm]
  rfl

end WidgetBridge.WidgetGrammar
