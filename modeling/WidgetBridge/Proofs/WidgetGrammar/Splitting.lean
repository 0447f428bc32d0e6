import WidgetBridge.Proofs.WidgetGrammar.Brackets

/-!
# Cutting ranges into parts

The statements of a block and the members of a class take up its range without gaps and in order
(`Source.Tiles`).  The parts between separators lie apart, and what lies between them is nothing but
separators outside of brackets (`Source.IsSplit`).

The functions that cut do so on forests: the forests of the parts put together are the forest that
was cut (`flatten_statements`, `flatten_membersFrom`), or this forest without some of its leaves
(`Parted`).  What they do to a range of the source follows from the way forests span it.
-/

namespace WidgetBridge.WidgetGrammar

open WidgetBridge.Text

/-! ## Parts without gaps -/

/-- Ranges that are not empty and take up a range of a source one after another. -/
def Source.Tiles (s : Source) (start stop : Nat) : List Range → Prop
  | [] => start = stop
  | r :: rs =>
    r.start = start ∧ start < r.stop ∧ r.tokens = s.slice start r.stop ∧ s.Tiles r.stop stop rs

theorem tiles_of_flatten {s : Source} (hs : s.Formed) {start stop : Nat} {rs : List Range}
    (h : s.Spans start stop (rs.map Range.trees).flatten) (hne : ∀ r ∈ rs, r.trees ≠ []) :
    s.Tiles start stop rs := by
  induction rs generalizing start with
  | nil =>
    obtain ⟨-, -, -, -, hstop⟩ := h.covers
    exact hstop.symm
  | cons r rs ih =>
    obtain ⟨hr, hrs⟩ := List.forall_mem_cons.1 hne
    rw [List.map_cons, List.flatten_cons] at h
    obtain ⟨m, hhead, htail⟩ := h.append hs
    obtain ⟨hstart, rfl, hlt⟩ := hhead.ends_eq hs hr
    exact ⟨hstart, hlt, hhead.covers.slice_eq.symm, ih htail hrs⟩

/-! ## Statements -/

theorem statement_ne_nil {first : String} {seen ts : List TokenTree} (h : seen ≠ [] ∨ ts ≠ []) :
    (statement first seen ts).1 ≠ [] := by
  fun_induction statement first seen ts with
  | case1 seen => simpa using h
  | case2 seen t ts hend => simp
  | case3 seen t ts hend ih => exact ih (.inl (List.cons_ne_nil _ _))
  | case4 seen o inner c ts seen' hblock => simp [seen']
  | case5 seen o inner c ts seen' hblock ih => exact ih (.inl (List.cons_ne_nil _ _))

/-- Each statement takes at least one tree off the forest that is left. -/
theorem flatten_statementsFrom (follow : Option Token) (fuel : Nat) (ts : List TokenTree)
    (h : ts.length ≤ fuel) :
    ((statementsFrom follow fuel ts).map Range.trees).flatten = ts ∧
      ∀ r ∈ statementsFrom follow fuel ts, r.trees ≠ [] := by
  induction fuel generalizing ts with
  | zero =>
    rw [List.length_eq_zero_iff.1 (Nat.le_zero.1 h)]
    exact ⟨rfl, nofun⟩
  | succ fuel ih =>
    cases ts with
    | nil => exact ⟨rfl, nofun⟩
    | cons t ts =>
      have hcut := statement_append t.first.text [] (t :: ts)
      have hne : (statement t.first.text [] (t :: ts)).1 ≠ [] :=
        statement_ne_nil (.inr (List.cons_ne_nil _ _))
      rw [List.reverse_nil, List.nil_append] at hcut
      rw [statementsFrom]
      generalize statement t.first.text [] (t :: ts) = cut at hcut hne
      obtain ⟨own, rest⟩ := cut
      dsimp only at hcut hne ⊢
      have hlength := congrArg List.length hcut
      rw [List.length_append] at hlength
      have hpos := List.length_pos_iff.2 hne
      obtain ⟨hflat, hrest⟩ := ih rest (by omega)
      refine ⟨?_, List.forall_mem_cons.2 ⟨hne, hrest⟩⟩
      rw [List.map_cons, List.flatten_cons, hflat]
      exact hcut

theorem flatten_statements (r : Range) :
    (r.statements.map Range.trees).flatten = r.trees ∧ ∀ p ∈ r.statements, p.trees ≠ [] :=
  flatten_statementsFrom r.follow r.trees.length r.trees (Nat.le_refl _)

/-! ## Members -/

theorem declaration_ne_nil {assigned : Bool} {ts : List TokenTree} (h : ts ≠ []) :
    (declaration assigned ts).1 ≠ [] := by
  obtain ⟨t, us, rfl⟩ := List.exists_cons_of_ne_nil h
  cases t with
  | leaf t =>
    rw [declaration]
    split_ifs <;> exact List.cons_ne_nil _ _
  | group o inner c =>
    rw [declaration]
    split_ifs <;> exact List.cons_ne_nil _ _

/-- A member keeps the range that it was read from. -/
theorem ends_classify_range (s : Surroundings) (range : Range) (annotations : List String)
    (ts : List TokenTree) :
    Ends (classify s range annotations ts) (fun m => m.range = range) fun _ => True := by
  have hclass {base : Member} (hbase : base.range = range) (modifiers : List String)
      (ts : List TokenTree) :
      Ends (classMember s base modifiers ts) (fun m => m.range = range) fun _ => True := by
    refine ⟨fun m h => ?_, fun _ _ => trivial⟩
    unfold classMember at h
    dsimp only at h
    split at h <;> cases h <;> exact hbase
  unfold classify
  dsimp only
  split_ifs
  · exact .ok rfl
  · exact .ok rfl
  · exact hclass rfl _ _
  · split
    · exact .ok rfl
    · split
      · split_ifs
        · exact .ok rfl
        · exact .ok rfl
      · exact .ok rfl

/-- Each member takes at least one tree off the forest that is left. -/
theorem flatten_membersFrom {unit : List TokenTree} {follow previous : Option Token} {fuel : Nat}
    {ts : List TokenTree} {ms : List Member} (h : ts.length ≤ fuel)
    (hms : membersFrom unit follow fuel previous ts = .ok ms) :
    ((ms.map Member.range).map Range.trees).flatten = ts ∧ ∀ r ∈ ms.map Member.range,
    r.trees ≠ [] := by
  induction fuel generalizing previous ts ms with
  | zero =>
    cases hms
    rw [List.length_eq_zero_iff.1 (Nat.le_zero.1 h)]
    exact ⟨rfl, nofun⟩
  | succ fuel ih =>
    cases ts with
    | nil =>
      cases hms
      exact ⟨rfl, nofun⟩
    | cons t us =>
      have hann := annotationsOf_append (t :: us).length (t :: us)
      have hdecl := declaration_append false (annotationsOf (t :: us).length (t :: us)).2
      have hown := @declaration_ne_nil false (annotationsOf (t :: us).length (t :: us)).2
      unfold membersFrom at hms
      dsimp only at hms
      generalize annotationsOf (t :: us).length (t :: us) = p at hann hdecl hown hms
      obtain ⟨annotations, decl⟩ := p
      dsimp only at hann hdecl hown hms
      generalize declaration false decl = q at hdecl hown hms
      obtain ⟨own, rest⟩ := q
      dsimp only at hdecl hown hms
      have hcut : annotations.flatten ++ own ++ rest = t :: us := by
        rw [List.append_assoc, hdecl, hann]
      have hne : annotations.flatten ++ own ≠ [] := by
        intro hnil
        obtain ⟨hempty, hnone⟩ := List.append_eq_nil_iff.1 hnil
        refine hown (fun hdecl => ?_) hnone
        rw [hempty, hdecl] at hann
        cases hann
      have hlength := congrArg List.length hcut
      rw [List.length_append] at hlength
      have hpos := List.length_pos_iff.2 hne
      obtain ⟨m, hm, hms⟩ := exists_of_bind_ok hms
      obtain ⟨ms', hrest, hms⟩ := exists_of_bind_ok hms
      cases hms
      have hrange := (ends_classify_range _ _ _ _).of_ok m hm
      obtain ⟨hflat, hall⟩ := ih (by omega) hrest
      refine ⟨?_, List.forall_mem_cons.2 ⟨?_, hall⟩⟩
      · rw [List.map_cons, List.map_cons, List.flatten_cons, hflat, hrange]
        exact hcut
      · rwa [hrange]

/-! ## Parts between separators -/

/-- Whether a token is a separator outside the brackets of a range. -/
def Source.Separates (s : Source) (separator : String) (start stop i : Nat) : Prop :=
  (∃ t, s.tokens[i]? = some t ∧ t.isPunct separator = true) ∧
    ∀ p ∈ s.matching, start ≤ p.1 → p.2 < stop → ¬(p.1 < i ∧ i < p.2)

theorem separates_of_isPunct {s : Source} {separator : String} {start stop : Nat} {t : Token}
    (ht : s.tokens[start]? = some t) (hsep : t.isPunct separator = true) :
    s.Separates separator start stop start :=
  ⟨⟨t, ht, hsep⟩, fun p _ hstart _ hin => by omega⟩

/-- Ranges inside a range that are not empty and lie apart, in order, such that the tokens in none
of them are the separators outside of brackets. -/
structure Source.IsSplit (s : Source) (separator : String) (start stop : Nat)
    (rs : List Range) : Prop where
  slices : ∀ r ∈ rs, start ≤ r.start ∧ r.start < r.stop ∧ r.stop ≤ stop ∧
    r.tokens = s.slice r.start r.stop
  ordered : rs.Pairwise fun r u => r.stop < u.start
  covered : ∀ i, start ≤ i → i < stop →
    ((∃ r ∈ rs, r.start ≤ i ∧ i < r.stop) ↔ ¬s.Separates separator start stop i)

theorem mem_tokensOf {t : Token} {ts : List TokenTree} :
    t ∈ TokenTree.tokensOf ts ↔ ∃ u ∈ ts, t ∈ u.tokens := by
  induction ts with
  | nil => simp [TokenTree.tokensOf]
  | cons u us ih => simp [TokenTree.tokensOf, ih]

theorem closerOf_ne_none {t : Token} {text : String} (h : t.lexeme.opens = true)
    (ht : t.isPunct text = true) : closerOf text ≠ none := by
  have htext : t.text = text := beq_iff_eq.1 (Bool.and_eq_true_iff.1 ht).2
  rw [← htext]
  exact Option.isSome_iff_ne_none.1 (Bool.and_eq_true_iff.1 h).2

theorem openerOf_ne_none {t : Token} {text : String} (h : t.lexeme.closes = true)
    (ht : t.isPunct text = true) : openerOf text ≠ none := by
  have htext : t.text = text := beq_iff_eq.1 (Bool.and_eq_true_iff.1 ht).2
  rw [← htext]
  exact Option.isSome_iff_ne_none.1 (Bool.and_eq_true_iff.1 h).2

/-- Trees with no separator outside of brackets. -/
def IsSolid (separator : String) (ts : List TokenTree) : Prop :=
  ∀ t, TokenTree.leaf t ∈ ts → t.isPunct separator = false

theorem isSolid_nil (separator : String) : IsSolid separator [] :=
  fun _ ht => absurd ht List.not_mem_nil

/-- A forest and its parts between separators: every tree stands in a part or is a separator, and
after each part there is a separator or the end. -/
inductive Parted (separator : String) : List TokenTree → List Range → Prop
  | nil : Parted separator [] []
  | gap {t : Token} {ts : List TokenTree} {rs : List Range} : t.isPunct separator = true →
    Parted separator ts rs → Parted separator (.leaf t :: ts) rs
  | last {r : Range} : r.trees ≠ [] → IsSolid separator r.trees → Parted separator r.trees [r]
  | part {r : Range} {t : Token} {ts : List TokenTree} {rs : List Range} : r.trees ≠ [] →
    IsSolid separator r.trees → t.isPunct separator = true → Parted separator ts rs →
    Parted separator (r.trees ++ .leaf t :: ts) (r :: rs)

theorem parted_splitFrom {separator : String} {follow : Option Token} {part ts : List TokenTree}
    (h : IsSolid separator part) :
    Parted separator (part.reverse ++ ts) (Range.splitFrom separator follow part ts) := by
  have hsolid {part : List TokenTree} (h : IsSolid separator part) : IsSolid separator
      part.reverse :=
    fun t ht => h t (List.mem_reverse.1 ht)
  fun_induction Range.splitFrom separator follow part ts with
  | case1 part hempty =>
    rw [List.isEmpty_iff.1 hempty]
    exact .nil
  | case2 part hne =>
    rw [List.append_nil]
    exact .last (r := ⟨part.reverse, follow⟩) (by simpa using hne) (hsolid h)
  | case3 part t ts hsep rest hempty ih =>
    rw [List.isEmpty_iff.1 hempty]
    exact .gap hsep (ih (isSolid_nil separator))
  | case4 part t ts hsep rest hne ih =>
    exact .part (r := ⟨part.reverse, some t⟩) (by simpa using hne) (hsolid h) hsep
      (ih (isSolid_nil separator))
  | case5 part t ts hsep ih =>
    rw [List.append_cons, ← List.reverse_cons]
    refine ih fun u hu => ?_
    rcases List.mem_cons.1 hu with hut | hu
    · cases hut
      simpa using hsep
    · exact h u hu
  | case6 part o inner c ts ih =>
    rw [List.append_cons, ← List.reverse_cons]
    refine ih fun u hu => ?_
    rcases List.mem_cons.1 hu with hut | hu
    · cases hut
    · exact h u hu

theorem parted_splitTop (r : Range) (separator : String) :
    Parted separator r.trees (r.splitTop separator) :=
  @parted_splitFrom separator r.follow [] r.trees (isSolid_nil separator)

section Parts

variable {s : Source} (hs : s.Formed) {separator : String} {start m stop : Nat}

include hs

/-- Whether a token separates is told by what follows a tree, as far as it follows this tree. -/
theorem Source.Spans.separates_iff {ts : List TokenTree} (h : s.Spans m stop ts)
    (hle : start ≤ m) {i : Nat} (hi : m ≤ i) :
    s.Separates separator start stop i ↔ s.Separates separator m stop i := by
  refine and_congr_right fun _ => forall_congr' fun p => forall_congr' fun hp => ?_
  constructor
  · exact fun hout hstart => hout (by omega)
  · intro hout hstart hstop hin
    have hpair := h.covers.mem_of_mem_pairsOf hs h.nested (h.touched p hp (by omega))
    exact hout (by omega) hstop hin

/-- A token in a part is no separator, or stands inside a group. -/
theorem Source.Spans.not_separates {ts : List TokenTree} (h : s.Spans start m ts) (hm : m ≤ stop)
    (hts : IsSolid separator ts) (hopen : closerOf separator = none)
    (hclose : openerOf separator = none) {i : Nat} (hi : start ≤ i) (hlt : i < m) :
    ¬s.Separates separator start stop i := by
  rintro ⟨⟨t, ht, hsep⟩, hout⟩
  obtain ⟨hmem, rfl⟩ := h.covers.mem_of_getElem? hs hi hlt ht
  obtain ⟨u, hu, htu⟩ := mem_tokensOf.1 hmem
  obtain ⟨before, after, rfl⟩ := List.append_of_mem hu
  rw [List.append_cons] at h
  obtain ⟨stop', hhead, htail⟩ := h.append hs
  obtain ⟨start', hbefore, hu⟩ := hhead.append hs
  have hstart := hbefore.covers.le
  have hstop := htail.covers.le
  cases u with
  | leaf u =>
    cases List.mem_singleton.1 htu
    rw [hts t (by simp)] at hsep
    cases hsep
  | group o inner c =>
    have hnested := hu.nested.1
    have hpair := hu.matched (o.index, c.index) (by simp [pairsOf_group])
    obtain ⟨last, rfl, hoindex, hcindex, hinner⟩ := hu.inner hs
    simp only [TokenTree.tokens, List.cons_append, List.mem_cons, List.mem_append, List.not_mem_nil,
      or_false] at htu
    rcases htu with rfl | htu | rfl
    · exact closerOf_ne_none hnested.1 hsep hopen
    · have hin := hinner.covers.mem_range hs htu
      exact hout _ hpair (by omega) (by omega) ⟨by omega, by omega⟩
    · exact openerOf_ne_none hnested.2.1 hsep hclose

theorem Source.IsSplit.gap {ts : List TokenTree} {rs : List Range}
    (h : s.IsSplit separator (start + 1) stop rs) (hts : s.Spans (start + 1) stop ts) {t : Token}
    (ht : s.tokens[start]? = some t) (hsep : t.isPunct separator = true) :
    s.IsSplit separator start stop rs where
  slices r hr := by
    obtain ⟨hstart, hrest⟩ := h.slices r hr
    exact ⟨by omega, hrest⟩
  ordered := h.ordered
  covered i hi hlt := by
    rcases Nat.eq_or_lt_of_le hi with rfl | hi
    · refine iff_of_false ?_ (not_not_intro (separates_of_isPunct ht hsep))
      rintro ⟨r, hr, hin⟩
      have := (h.slices r hr).1
      omega
    · rw [h.covered i hi hlt, hts.separates_iff hs (Nat.le_succ start) hi]

theorem Source.IsSplit.part {ts : List TokenTree} {r : Range} {rs : List Range}
    (h : s.IsSplit separator m stop rs) (hr : s.Spans start m r.trees) (hts : s.Spans m stop ts)
    (hne : r.trees ≠ []) (hsolid : IsSolid separator r.trees) (hopen : closerOf separator = none)
    (hclose : openerOf separator = none) (hend : m < stop → s.Separates separator m stop m) :
    s.IsSplit separator start stop (r :: rs) := by
  obtain ⟨rfl, rfl, hlt⟩ := hr.ends_eq hs hne
  have hle := hts.covers.le
  refine ⟨List.forall_mem_cons.2 ⟨?_, fun u hu => ?_⟩,
    List.pairwise_cons.2 ⟨fun u hu => ?_, h.ordered⟩,
    fun i hi histop => ?_⟩
  · exact ⟨Nat.le_refl _, hlt, hle, hr.covers.slice_eq.symm⟩
  · obtain ⟨hstart, hrest⟩ := h.slices u hu
    exact ⟨by omega, hrest⟩
  · -- a part does not start where the one before it ends, since a separator stands there
    obtain ⟨hstart, hu', hstop, -⟩ := h.slices u hu
    refine Nat.lt_of_le_of_ne hstart fun heq => ?_
    exact (h.covered r.stop (Nat.le_refl _) (by omega)).1 ⟨u, hu, by omega, by omega⟩
      (hend (by omega))
  · by_cases hin : i < r.stop
    · exact iff_of_true ⟨r, List.mem_cons_self, hi, hin⟩
        (hr.not_separates hs hle hsolid hopen hclose hi hin)
    · rw [hts.separates_iff hs (Nat.le_of_lt hlt) (Nat.le_of_not_lt hin),
        ← h.covered i (Nat.le_of_not_lt hin) histop]
      simp [hin]

theorem Parted.isSplit {ts : List TokenTree} {rs : List Range} (hp : Parted separator ts rs)
    (h : s.Spans start stop ts) (hopen : closerOf separator = none)
    (hclose : openerOf separator = none) :
    s.IsSplit separator start stop rs := by
  have hnil {stop : Nat} : s.IsSplit separator stop stop [] :=
    ⟨nofun, List.Pairwise.nil, fun i hi hlt => by omega⟩
  induction hp generalizing start with
  | nil =>
    obtain ⟨-, -, -, -, hstop⟩ := h.covers
    obtain rfl : stop = start := hstop
    exact hnil
  | gap ht _ ih =>
    obtain ⟨hget, hts⟩ := h.tail_of_leaf hs
    exact (ih hts).gap hs hts hget ht
  | @last r hne hsolid =>
    rw [← List.append_nil r.trees] at h
    obtain ⟨m, hr, hrest⟩ := h.append hs
    obtain ⟨-, -, -, -, hstop⟩ := hrest.covers
    obtain rfl : stop = m := hstop
    exact hnil.part hs hr hrest hne hsolid hopen hclose fun hlt => absurd hlt (Nat.lt_irrefl _)
  | part hne hsolid ht _ ih =>
    obtain ⟨m, hr, hrest⟩ := h.append hs
    obtain ⟨hget, hts⟩ := hrest.tail_of_leaf hs
    exact ((ih hts).gap hs hts hget ht).part hs hr hrest hne hsolid hopen hclose fun _ =>
      separates_of_isPunct hget ht

end Parts

/-! ## The whole -/

/-- Cutting a range into statements, members or parts loses no token and takes none twice. -/
theorem tiles_of_read {source : String} {s : Source} (h : Source.read source = .ok s)
    {start stop : Nat} (hclosed : s.IsClosed start stop) :
    s.Tiles start stop (s.range start stop).statements ∧
      (∀ ms, s.membersIn (s.range start stop) = .ok ms → s.Tiles start stop (ms.map Member.range)) ∧
      ∀ separator, closerOf separator = none → openerOf separator = none →
        s.IsSplit separator start stop ((s.range start stop).splitTop separator) := by
  have hs := formed_of_read h
  have hspans := hclosed.spans hs
  refine ⟨?_, fun ms hms => ?_, fun separator hopen hclose => ?_⟩
  · obtain ⟨hflat, hne⟩ := flatten_statements (s.range start stop)
    exact tiles_of_flatten hs (hflat.symm ▸ hspans) hne
  · obtain ⟨hflat, hne⟩ := flatten_membersFrom (Nat.le_refl _) hms
    exact tiles_of_flatten hs (hflat.symm ▸ hspans) hne
  · exact (parted_splitTop _ separator).isSplit hs hspans hopen hclose

/-- A class with a field and a method: its body stands between the third and the last token. -/
def twoMembers : String :=
  "class A \x7b @x int a = 1; f(b, [c, d]) \x7b if (b) \x7b g(); \x7d h(); \x7d \x7d"

theorem tiles_of_read_twoMembers : ∃ s ms, Source.read twoMembers = .ok s ∧ s.IsClosed 3 36 ∧
    s.membersIn (s.range 3 36) = .ok ms ∧ ms.length = 2 ∧ s.Tiles 3 36 (ms.map Member.range) ∧
    s.Tiles 3 36 (s.range 3 36).statements ∧
    closerOf "," = none ∧ openerOf "," = none ∧
      s.IsSplit "," 3 36 ((s.range 3 36).splitTop ",") := by
  have hread : (Source.read twoMembers).toOption.any (fun s => decide (s.IsClosed 3 36) &&
      (s.membersIn (s.range 3 36)).toOption.any fun ms => ms.length == 2) = true := by
        decide +kernel
  obtain ⟨s, hread, htest⟩ := exists_ok_of_any hread
  obtain ⟨hclosed, hmembers⟩ := Bool.and_eq_true_iff.1 htest
  obtain ⟨ms, hms, hlength⟩ := exists_ok_of_any hmembers
  have hclosed := of_decide_eq_true hclosed
  obtain ⟨hstatements, htiles, hsplit⟩ := tiles_of_read hread hclosed
  exact ⟨s, ms, hread, hclosed, hms, beq_iff_eq.1 hlength, htiles ms hms, hstatements, rfl, rfl,
    hsplit "," rfl rfl⟩

/-- The members of a whole source take it up without gaps. -/
theorem tiles_members {source : String} {s : Source} (h : Source.read source = .ok s)
    {ms : List Member} (hms : s.members = .ok ms) :
    s.Tiles 0 s.tokens.length (ms.map Member.range) := by
  have hs := formed_of_read h
  obtain ⟨hflat, hne⟩ := flatten_membersFrom (Nat.le_refl _) hms
  exact tiles_of_flatten hs (hflat.symm ▸ hs.spans) hne

end WidgetBridge.WidgetGrammar
