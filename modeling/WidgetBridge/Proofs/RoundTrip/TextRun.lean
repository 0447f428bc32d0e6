import WidgetBridge.Proofs.Writing.WidgetCode
import WidgetBridge.Reading.WidgetTree

/-!
# Text runs that survive widget source

The texts and the slots of a run share one literal.  The reader cannot tell where one text ended and
the next began, nor whether there was an empty one: it gives the run back with its texts gathered
(`gathered`), and the slots as they were, between the same texts (`textNodes_textLiteral`).

A literal is cut off the source at once, line feeds of the slots included, and so the words of an
outline (`Word.Stands`), which lie on one line, are of no use here.
-/

namespace WidgetBridge.RoundTrip

open WidgetBridge.WidgetGrammar WidgetBridge.Writing WidgetBridge.Reading

/-! ## Runs with their texts gathered -/

/-- A text in front of a run: it becomes part of a text there, and vanishes if it is empty. -/
def withText (s : String) : List Node → List Node
  | .text t :: ns => .text (s ++ t) :: ns
  | ns => if s = "" then ns else .text s :: ns

/-- A run whose adjacent texts are concatenated and whose empty texts are left out. -/
def gathered : List Node → List Node
  | [] => []
  | .text s :: ns => withText s (gathered ns)
  | n :: ns => n :: gathered ns

/-- A node of a run: a text, or a slot that can stand in an interpolation. -/
def IsInline : Node → Prop
  | .text _ => True
  | .slot source => IsHole source
  | .element _ _ => False

theorem withText_of_head (s : String) {ns : List Node} (h : ∀ t, ns.head? ≠ some (.text t)) :
    withText s ns = if s = "" then ns else .text s :: ns := by
  unfold withText
  split
  · exact absurd rfl (h _)
  · rfl

theorem withText_empty (ns : List Node) : withText "" ns = ns := by
  unfold withText
  split
  · rw [String.empty_append]
  · rw [if_pos rfl]

theorem withText_withText (s t : String) (ns : List Node) :
    withText s (withText t ns) = withText (s ++ t) ns := by
  by_cases h : ∃ u, ns.head? = some (.text u)
  · obtain ⟨u, hu⟩ := h
    obtain ⟨ns, rfl⟩ := List.head?_eq_some_iff.1 hu
    simp only [withText, String.append_assoc]
  · rw [not_exists] at h
    rw [withText_of_head t h, withText_of_head (s ++ t) h]
    by_cases ht : t = ""
    · rw [if_pos ht, withText_of_head s h, ht, String.append_empty]
    · simp [ht, withText]

theorem withText_slot (s source : String) (ns : List Node) :
    withText s (.slot source :: ns) = withText s [] ++ .slot source :: ns := by
  unfold withText
  split_ifs <;> rfl

/-! ## Parts of a literal -/

theorem reverse_flushParts (buffer : List Char) (done : List Part) :
    (flushParts buffer done).reverse =
      done.reverse ++ (withText (String.ofList buffer.reverse) []).map partOf := by
  cases buffer with
  | nil => simp [flushParts, withText]
  | cons c cs => simp [flushParts, withText, partOf, ← String.toList_inj]

/-- The reader has some parts and the text at hand, and goes on with a run. -/
theorem reverse_fuseOnto {ns : List Node} (h : ∀ n ∈ ns, IsInline n) (buffer : List Char)
    (done : List Part) :
    (fuseOnto buffer done (ns.map partOf)).reverse =
      done.reverse ++ (withText (String.ofList buffer.reverse) (gathered ns)).map partOf := by
  induction ns generalizing buffer done with
  | nil => exact reverse_flushParts buffer done
  | cons n ns ih =>
    have ih := ih fun m hm => h m (List.mem_cons_of_mem _ hm)
    cases n with
    | text s =>
      rw [List.map_cons, partOf, fuseOnto, ih, gathered, withText_withText]
      simp
    | slot source =>
      have hgathered : gathered (.slot source :: ns) = .slot source :: gathered ns := rfl
      rw [List.map_cons, partOf, fuseOnto, ih, hgathered, withText_slot, List.reverse_cons,
        reverse_flushParts]
      simp [withText_empty, partOf]
    | element e cs => exact (h _ List.mem_cons_self).elim

theorem fused_run {ns : List Node} (h : ∀ n ∈ ns, IsInline n) :
    fused (ns.map partOf) = (gathered ns).map partOf := by
  rw [fused, reverse_fuseOnto h]
  simp [withText_empty]

theorem settled_withText (s : String) {ns : List Node} (h : Settled (ns.map partOf)) :
    Settled ((withText s ns).map partOf) := by
  by_cases hhead : ∃ t, ns.head? = some (.text t)
  · obtain ⟨t, ht⟩ := hhead
    obtain ⟨ns, rfl⟩ := List.head?_eq_some_iff.1 ht
    exact ⟨by simp [h.1], h.2⟩
  · rw [not_exists] at hhead
    rw [withText_of_head s hhead]
    split_ifs with hs
    · exact h
    · refine ⟨hs, fun t ht => ?_, h⟩
      cases ns with
      | nil => cases ht
      | cons n ns =>
        cases n with
        | text u => exact hhead u rfl
        | slot source => cases ht
        | element e cs => exact h.1 rfl

theorem settled_gathered {ns : List Node} (h : ∀ n ∈ ns, IsInline n) :
    Settled ((gathered ns).map partOf) := by
  induction ns with
  | nil => trivial
  | cons n ns ih =>
    have ih := ih fun m hm => h m (List.mem_cons_of_mem _ hm)
    cases n with
    | text s => exact settled_withText s ih
    | slot source => exact ih
    | element e cs => exact (h _ List.mem_cons_self).elim

/-- Parts of which no text is empty are the nodes that they were. -/
theorem textNodes_of_settled {ns : List Node} (h : Settled (ns.map partOf)) (r : Range) :
    textNodes (.string r (ns.map partOf)) = ns := by
  induction ns with
  | nil => rfl
  | cons n ns ih =>
    cases n with
    | text s =>
      have hs : s.isEmpty = false := by simpa using h.1
      have ih := ih h.2.2
      simp only [textNodes] at ih
      simp only [textNodes, List.map_cons, List.filterMap_cons, partOf, hs, Bool.false_eq_true,
        if_false, ih]
    | slot source =>
      have ih := ih h
      simp only [textNodes] at ih
      simp only [textNodes, List.map_cons, List.filterMap_cons, partOf, ih]
    | element e cs => exact absurd rfl h.1

/-! ## The literal -/

theorem writable_partOf {ns : List Node} (h : ∀ n ∈ ns, IsInline n) :
    ∀ p ∈ ns.map partOf, p.Writable := by
  intro p hp
  obtain ⟨n, hn, rfl⟩ := List.mem_map.1 hp
  have hn := h n hn
  cases n with
  | text s => trivial
  | slot source => exact hn
  | element e cs => exact hn.elim

/-- A literal is one lexeme, even if there are line feeds in its interpolations. -/
theorem scan_literal {parts : List Part} (hp : ∀ p ∈ parts, p.Writable) :
    ∃ l, Lexeme.scan (String.ofList (quoted parts)) = .ok [l] ∧
      l.spoken = ("", .literal parts) := by
  have htext : (Word.literal parts).text.toList = '\'' :: (bodyOf parts ++ ['\'']) := by
    simp [Word.literal, quoted]
  have hcut : cutLexeme '\'' (bodyOf parts ++ ['\''] ++ []) =
      .ok ⟨.string, (bodyOf parts ++ ['\'']).length, fused parts⟩ := by
    rw [List.append_nil, cutLexeme_quoted hp (by simp)]
    simp
  have hstack : ∀ place, nextOpen [] (Word.literal parts).kind (Word.literal parts).text place =
      .ok [] :=
    fun _ => rfl
  obtain ⟨l, spot, hl, hscan⟩ := scanFrom_cut (g := "") (by decide) htext (by decide) hcut hstack {}
  refine ⟨l, ?_, hl⟩
  rw [Lexeme.scan, String.toList_ofList]
  rw [List.append_nil] at hscan
  refine Eq.trans ?_ (hscan.trans ?_)
  · simp [Word.literal]
  · rw [scanFrom_nil]
    rfl

theorem read_of_scan {a : String} {l : Lexeme} (h : Lexeme.scan a = .ok [l])
    (hk : l.kind = .string) :
    Source.read a = .ok ⟨[⟨l, 0, []⟩], [.leaf ⟨l, 0, []⟩], []⟩ := by
  have hcomment : ∀ m ∈ [l], m.kind ≠ .comment := by simp [hk]
  simp only [Source.read, h, bind, Except.bind, pure, Except.pure, attach_of_no_comment hcomment,
    tokensFrom, TokenTree.ofTokens, List.foldl_cons, List.foldl_nil, TokenTree.Levels.push, hk]
  rfl

/-- The literal of a run is one lexeme, and the text nodes of the expression that it is are the run
with its texts gathered. -/
theorem textNodes_textLiteral (ns : List Node) (h : ∀ n ∈ ns, IsInline n) :
    ∃ l s e, Lexeme.scan (textLiteral ns) = .ok [l] ∧ l.kind = .string ∧ l.text = textLiteral ns ∧
      Source.read (textLiteral ns) = .ok s ∧ s.all.expr = .ok e ∧ textNodes e = gathered ns := by
  obtain ⟨l, hscan, hl⟩ := scan_literal (writable_partOf h)
  have hword : l.word = .literal (ns.map partOf) := congrArg Prod.snd hl
  have hkind : l.kind = .string := congrArg Word.kind hword
  have htoken : Token.IsWord ⟨l, 0, []⟩ (.literal (ns.map partOf)) :=
    ⟨"", is_of_spoken hl rfl⟩
  obtain ⟨e, hexpr, -, r, rfl⟩ := readsAs_literal htoken none 6 (Nat.le_add_left 4 2)
  rw [fused_run h, mergeParts_of_settled (settled_gathered h)] at hexpr
  have hread := read_of_scan hscan hkind
  rw [← textLiteral_eq] at hscan hread
  exact ⟨l, _, _, hscan, hkind, (congrArg Word.text hword).trans (textLiteral_eq ns).symm,
    hread, hexpr, textNodes_of_settled (settled_gathered h) r⟩

/-- A run of texts that look like interpolations, an empty one among them, around a slot with braces
of its own on two lines. -/
theorem textNodes_textLiteral_mixed :
    let ns : List Node := [.text "it's $", .text "\x7bx\x7d", .text "",
      .slot "items.map((x) \x7b\nreturn \x7bx\x7d; \x7d)", .text "", .text "\\'"]
    (∀ n ∈ ns, IsInline n) ∧
      gathered ns = [.text "it's $\x7bx\x7d", .slot "items.map((x) \x7b\nreturn \x7bx\x7d; \x7d)",
        .text "\\'"] ∧
      ∃ l s e, Lexeme.scan (textLiteral ns) = .ok [l] ∧ l.kind = .string ∧ l.text = textLiteral ns ∧
        Source.read (textLiteral ns) = .ok s ∧ s.all.expr = .ok e ∧ textNodes e = gathered ns := by
  have hslot : IsHole "items.map((x) \x7b\nreturn \x7bx\x7d; \x7d)" :=
    ⟨Text.forall_mem_of_all (by decide), by decide, by decide⟩
  have hinline : ∀ n ∈ ([.text "it's $", .text "\x7bx\x7d", .text "",
      .slot "items.map((x) \x7b\nreturn \x7bx\x7d; \x7d)", .text "", .text "\\'"] : List Node),
      IsInline n := by
    simp [IsInline, hslot]
  exact ⟨hinline, by simp [gathered, withText], textNodes_textLiteral _ hinline⟩

end WidgetBridge.RoundTrip
