import WidgetBridge.Proofs.Text.Match
import WidgetBridge.Proofs.Text.Pattern
import WidgetBridge.Route.Path

/-!
# Addresses of a path

`Fills ss cs vs` says that the characters `cs` are the segments `ss` with the values `vs` for their
parameters. The pattern of the segments takes such characters, and each value is the group of its
parameter (`Fills.takes`); where all parameters are required it takes nothing else, but for an end
that is no part of the segments (`fills_of_run`).

So an address that is filled in matches with its values (`matchPath?_of_fills`), and an address that
matches a path of required parameters is filled in with the values that it gives
(`exists_fills_of_matchPath?`).
-/

namespace WidgetBridge.Route

open WidgetBridge.Text Pattern

/-! ## Filled segments -/

/-- The characters of segments with values for their parameters, none of which is empty.  A
parameter has a value without slash, and the rest of an address is one line. -/
inductive Fills : List String → List Char → List (List Char) → Prop
  | nil : Fills [] [] []
  | fixed {s : String} {ss : List String} {cs : List Char} {vs : List (List Char)}
    (h : isBinding s = false)
    (hrest : Fills ss cs vs) : Fills (s :: ss) ('/' :: s.toList ++ cs) vs
  | one {s : String} {ss : List String} {v cs : List Char} {vs : List (List Char)}
    (h : hasHead s ":" = true)
    (hne : v ≠ []) (hslash : '/' ∉ v) (hrest : Fills ss cs vs) : Fills (s :: ss)
      ('/' :: v ++ cs) (v :: vs)
  | rest {s : String} {v : List Char} (h : hasHead s ":" = false) (hstar : hasHead s "*" = true)
    (hne : v ≠ []) (hline : '\n' ∉ v) : Fills [s] ('/' :: v) [v]

variable {ss : List String} {cs tail : List Char} {vs : List (List Char)}

theorem Fills.head (h : Fills ss cs vs) : ∀ c ∈ cs.head?, c = '/' := by
  cases h with
  | nil => nofun
  | fixed | one | rest =>
    rintro c ⟨⟩
    rfl

/-- An address that is filled in is not just a slash. -/
theorem Fills.ne_slash (h : Fills ss cs vs) (hss : ∀ s ∈ ss, s ≠ "") : cs ≠ ['/'] := by
  cases h with
  | nil => simp
  | @fixed s ss cs vs h hrest =>
    have hs : s.toList ≠ [] := by simpa using hss s List.mem_cons_self
    simp [hs]
  | one h hne hslash hrest => simp [hne]
  | rest h hstar hne hline => simp [hne]

/-- The values as groups, the latest first. -/
def numbered (index : Nat) (vs : List (List Char)) : Groups :=
  ((vs.zipIdx index).map fun v => (v.2, v.1)).reverse

theorem numbered_cons (index : Nat) (v : List Char) (vs : List (List Char)) :
    numbered index (v :: vs) = numbered (index + 1) vs ++ [(index, v)] := by
  simp [numbered]

theorem lookup_numbered {index i : Nat} (h : i < index) (vs : List (List Char)) :
    (numbered index vs).lookup i = none := by
  rw [List.lookup_eq_none_iff]
  intro g hg
  obtain ⟨v, hv, rfl⟩ := List.mem_map.1 (List.mem_reverse.1 hg)
  have := List.le_snd_of_mem_zipIdx hv
  rw [bne_iff_ne]
  omega

/-- Each name gets the value of its group. -/
theorem filterMap_numbered {names : List String} (hlen : names.length = vs.length) (index : Nat)
    (low : Groups) :
    ((names.zipIdx index).filterMap fun p =>
      (((numbered index vs ++ low).lookup p.2).map String.ofList).map fun v => (p.1, v)) =
        names.zip (vs.map String.ofList) := by
  induction names generalizing vs index low with
  | nil =>
    cases vs with
    | nil => rfl
    | cons v vs => cases hlen
  | cons name names ih =>
    cases vs with
    | nil => cases hlen
    | cons v vs =>
      have hfirst : (numbered (index + 1) vs ++ ([(index, v)] ++ low)).lookup index = some v := by
        rw [List.lookup_append, lookup_numbered (Nat.lt_succ_self index)]
        simp
      have hrest := ih (Nat.succ.inj hlen) (index + 1) ([(index, v)] ++ low)
      rw [numbered_cons, List.append_assoc, List.zipIdx_cons, List.filterMap_cons, hfirst, hrest]
      rfl

/-! ## The pattern of segments -/

theorem toList_slash (s : String) : ("/" ++ s).toList = '/' :: s.toList := by
  rw [String.toList_append]
  rfl

theorem binding_of_not {s : String} (h : isBinding s = false) :
    hasHead s ":" = false ∧ hasHead s "*" = false := by
  simpa [isBinding] using h

theorem ofSegments_fixed {s : String} (h : isBinding s = false) (index : Nat) (ss : List String) :
    Matching.ofSegments index (s :: ss) =
      (lit ("/" ++ s) ++ (Matching.ofSegments index ss).1, (Matching.ofSegments index ss).2) := by
  obtain ⟨hcolon, hstar⟩ := binding_of_not h
  simp [Matching.ofSegments, hcolon, hstar]

theorem ofSegments_required {s : String} (h : hasHead s ":" = true)
    (hreq : hasTail (drop s 1) "?" = false) (index : Nat) (ss : List String) :
    Matching.ofSegments index (s :: ss) =
      (Matching.oneSegment index ++ (Matching.ofSegments (index + 1) ss).1,
        drop s 1 :: (Matching.ofSegments (index + 1) ss).2) := by
  simp [Matching.ofSegments, h, hreq]

theorem ofSegments_optional {s : String} (h : hasHead s ":" = true)
    (hopt : hasTail (drop s 1) "?" = true) (index : Nat) (ss : List String) :
    Matching.ofSegments index (s :: ss) =
      (opt (Matching.oneSegment index) ++ (Matching.ofSegments (index + 1) ss).1,
        take (drop s 1) ((drop s 1).length - 1) :: (Matching.ofSegments (index + 1) ss).2) := by
  simp [Matching.ofSegments, h, hopt]

theorem ofSegments_rest {s : String} (h : hasHead s ":" = false) (hstar : hasHead s "*" = true)
    (index : Nat) (ss : List String) : Matching.ofSegments index (s :: ss) =
      (opt (lit "/" ++ group index (many inLine)) ++ (Matching.ofSegments (index + 1) ss).1,
        restName s :: (Matching.ofSegments (index + 1) ss).2) := by
  simp [Matching.ofSegments, h, hstar]

theorem takes_oneSegment {v rest : List Char} (hne : v ≠ []) (hslash : '/' ∉ v)
    (hrest : ∀ c ∈ rest.head?, c = '/') (index : Nat) :
    Takes (Matching.oneSegment index) ('/' :: v) rest [(index, v)] := by
  have hv : ∀ c ∈ v, (!"/".toList.contains c) = true := by
    intro c hc
    have : c ≠ '/' := fun heq => hslash (heq ▸ hc)
    simpa using this
  have hstop : ∀ c ∈ rest.head?, (!"/".toList.contains c) = false := by
    intro c hc
    simp [hrest c hc]
  exact (takes_lit "/" (v ++ rest)).seq ((takes_many1 hne hv hstop).group index)

/-- The end of an address: a slash may stand in front of it. -/
theorem takes_end (htail : tail = [] ∨ tail = ['/']) :
    Takes (opt (lit "/") ++ textEnd) tail [] [] := by
  rcases htail with rfl | rfl
  · exact (takes_opt_nil (refuses_nil_lit (show "/" ≠ "" by decide))).seq takes_textEnd
  · exact ((takes_lit "/" []).opt (List.cons_ne_nil _ _)).seq takes_textEnd

/-- The pattern of segments takes what they are filled with.  A slash may follow, but not behind the
rest of an address, to which it would belong. -/
theorem Fills.takes (h : Fills ss cs vs)
    (htail : tail = [] ∨ (tail = ['/'] ∧ ∀ s ∈ ss, hasHead s "*" = false)) (index : Nat) :
    Takes (Matching.ofSegments index ss).1 (cs ++ tail) [] (numbered index vs) := by
  induction h generalizing index with
  | nil => exact takes_end (htail.imp_right And.left)
  | @fixed s ss cs vs h hrest ih =>
    have hnext :=
      ih (htail.imp_right fun h => ⟨h.1, fun s hs => h.2 s (List.mem_cons_of_mem _ hs)⟩) index
    have hlit := takes_lit ("/" ++ s) (cs ++ tail ++ [])
    rw [toList_slash] at hlit
    rw [ofSegments_fixed h, List.append_assoc]
    have htakes := hlit.seq hnext
    rwa [List.append_nil] at htakes
  | @one s ss v cs vs h hne hslash hrest ih =>
    have hnext :=
      ih (htail.imp_right fun h => ⟨h.1, fun s hs => h.2 s (List.mem_cons_of_mem _ hs)⟩) (index + 1)
    have hstop : ∀ c ∈ (cs ++ tail ++ []).head?, c = '/' := by
      rw [List.append_nil]
      cases cs with
      | nil => rcases htail with rfl | ⟨rfl, -⟩ <;> simp
      | cons c cs => exact hrest.head
    have hone := takes_oneSegment hne hslash hstop index
    rw [numbered_cons, List.append_assoc]
    cases hopt : hasTail (drop s 1) "?" with
    | false =>
      rw [ofSegments_required h hopt]
      exact hone.seq hnext
    | true =>
      rw [ofSegments_optional h hopt]
      exact (hone.opt (List.cons_ne_nil _ _)).seq hnext
  | @rest s v h hstar hne hline =>
    obtain rfl : tail = [] := by
      rcases htail with htail | ⟨-, hnone⟩
      · exact htail
      · rw [hnone s List.mem_cons_self] at hstar
        cases hstar
    have hv : ∀ c ∈ v, (c != '\n') = true := by
      intro c hc
      have : c ≠ '\n' := fun heq => hline (heq ▸ hc)
      simpa using this
    have hall : Takes (lit "/" ++ group index (many inLine)) ('/' :: v) [] [(index, v)] := by
      have hmany : Takes (group index (many inLine)) v [] [(index, v)] :=
        (takes_many hv (by simp)).group index
      exact (takes_lit "/" _).seq hmany
    rw [ofSegments_rest h hstar]
    exact (hall.opt (List.cons_ne_nil _ _)).seq (takes_end (.inl rfl))

theorem Fills.length_names (h : Fills ss cs vs) (index : Nat) :
    (Matching.ofSegments index ss).2.length = vs.length := by
  induction h generalizing index with
  | nil => rfl
  | fixed h hrest ih => rw [ofSegments_fixed h, ih]
  | @one s ss v cs vs h hne hslash hrest ih =>
    cases hopt : hasTail (drop s 1) "?" with
    | false => rw [ofSegments_required h hopt, List.length_cons, ih, List.length_cons]
    | true => rw [ofSegments_optional h hopt, List.length_cons, ih, List.length_cons]
  | rest h hstar hne hline =>
    rw [ofSegments_rest h hstar]
    rfl

/-! ## What the pattern of segments takes -/

/-- What an address may end with: a slash, and a line feed behind it. -/
def IsTail (tail : List Char) : Prop := tail ∈ [[], ['/'], ['\n'], ['/', '\n']]

/-- A segment that stands for itself or for a parameter that is required. -/
def IsSimple (s : String) : Prop :=
  isBinding s = false ∨ (hasHead s ":" = true ∧ hasTail (drop s 1) "?" = false)

theorem goes_of_run {p q : Pattern} {c r : Cursor} (h : run (p ++ q) c some = some r) :
    ∃ cs gs rest, c.rest = cs ++ rest ∧ Spans p cs gs ∧ run q (c.after cs rest gs) some = some r :=
  run_spans (k := fun c' => run q c' some) h

theorem spans_oneSegment {index : Nat} {gs : Groups} (h : Spans (Matching.oneSegment index) cs gs) :
    ∃ v, cs = '/' :: v ∧ gs = [(index, v)] ∧ v ≠ [] ∧ '/' ∉ v := by
  obtain ⟨ds, es, hs, is, rfl, rfl, hlit, js, rfl, hrep⟩ := spans_append.1 h
  obtain ⟨rfl, rfl⟩ := spans_lit hlit
  obtain ⟨hlen, hall, rfl⟩ := spans_rep_char hrep
  refine ⟨es, rfl, rfl, List.length_pos_iff.1 hlen, fun hslash => ?_⟩
  have := hall '/' hslash
  simp at this

theorem isTail_of_run {c r : Cursor} (h : run (opt (lit "/") ++ textEnd) c some = some r) :
    IsTail c.rest ∧ r.groups = c.groups := by
  obtain ⟨cs, gs, rest, hrest, hspans, hend⟩ := goes_of_run h
  have hcs : (cs = [] ∨ cs = ['/']) ∧ gs = [] := by
    rcases spans_opt hspans with ⟨hcs, hgs⟩ | hlit
    · exact ⟨.inl hcs, hgs⟩
    · obtain ⟨hcs, hgs⟩ := spans_lit hlit
      exact ⟨.inr hcs, hgs⟩
  obtain ⟨hcs, rfl⟩ := hcs
  have hstop : (rest = [] ∨ rest = ['\n']) ∧ r.groups = c.groups := by
    rw [run] at hend
    split at hend
    · next heq =>
      cases hend
      exact ⟨.inl heq, rfl⟩
    · next heq =>
      cases hend
      exact ⟨.inr heq, rfl⟩
    · cases hend
  refine ⟨?_, hstop.2⟩
  rw [hrest]
  rcases hcs with rfl | rfl <;> rcases hstop.1 with rfl | rfl <;> simp [IsTail]

/-- The pattern of simple segments matches only where they are filled in, with an end behind
them. -/
theorem fills_of_run (hss : ∀ s ∈ ss, IsSimple s) {index : Nat} {c r : Cursor}
    (h : run (Matching.ofSegments index ss).1 c some = some r) : ∃ cs vs tail, c.rest = cs ++ tail ∧
      Fills ss cs vs ∧ IsTail tail ∧ r.groups = numbered index vs ++ c.groups := by
  induction ss generalizing index c with
  | nil =>
    obtain ⟨htail, hgroups⟩ := isTail_of_run h
    exact ⟨[], [], c.rest, rfl, .nil, htail, hgroups⟩
  | cons s ss ih =>
    obtain ⟨hs, hss⟩ := List.forall_mem_cons.1 hss
    rcases hs with hfixed | ⟨hcolon, hreq⟩
    · rw [ofSegments_fixed hfixed] at h
      obtain ⟨ds, gs, rest, hrest, hspans, hrun⟩ := goes_of_run h
      obtain ⟨rfl, rfl⟩ := spans_lit hspans
      obtain ⟨cs, vs, tail, hcs, hfills, htail, hgroups⟩ := ih hss hrun
      refine ⟨'/' :: s.toList ++ cs, vs, tail, ?_, .fixed hfixed hfills, htail, hgroups⟩
      rw [hrest, show rest = cs ++ tail from hcs, toList_slash, List.cons_append, List.cons_append,
        List.cons_append, List.append_assoc]
    · rw [ofSegments_required hcolon hreq] at h
      obtain ⟨ds, gs, rest, hrest, hspans, hrun⟩ := goes_of_run h
      obtain ⟨v, rfl, rfl, hne, hslash⟩ := spans_oneSegment hspans
      obtain ⟨cs, vs, tail, hcs, hfills, htail, hgroups⟩ := ih hss hrun
      refine ⟨'/' :: v ++ cs, v :: vs, tail, ?_, .one hcolon hne hslash hfills, htail, ?_⟩
      · rw [hrest, show rest = cs ++ tail from hcs, List.append_assoc]
      · rw [hgroups, numbered_cons, List.append_assoc]
        rfl

/-! ## Matching -/

/-- The characters of an address that a path is matched against: none for the root. -/
def matchedChars (address : String) : List Char := if address == "/" then [] else address.toList

/-- The values of a match under the names of a path. -/
def pairsOf (names : List String) (m : Match) : List (String × String) :=
  (names.zipIdx 1).filterMap fun p => (m.group? p.2).map fun v => (p.1, v)

theorem matchPath?_eq (path url : String) : matchPath? path url =
    (matchAt? (Matching.ofSegments 1 (segments path)).1 [] 0 (matchedChars (before url "?"))).map
        fun m =>
      Assoc.ofPairs (pairsOf (Matching.ofSegments 1 (segments path)).2 m) := by
  have hchars : (if before url "?" == "/" then "" else before url "?").toList =
      matchedChars (before url "?") := by
    unfold matchedChars
    split_ifs <;> rfl
  rw [← hchars]
  rfl

theorem pairsOf_numbered {names : List String} (hlen : names.length = vs.length) {m : Match}
    (hm : m.groups = numbered 1 vs) : pairsOf names m = names.zip (vs.map String.ofList) := by
  have h := filterMap_numbered hlen 1 []
  rw [List.append_nil] at h
  unfold pairsOf Match.group?
  rw [hm]
  exact h

/-- An address that is filled in matches with its values. -/
theorem matchPath?_of_fills {path url : String} (h : Fills (segments path) cs vs)
    (htail : tail = [] ∨ (tail = ['/'] ∧ ∀ s ∈ segments path, hasHead s "*" = false))
    (hurl : matchedChars (before url "?") = cs ++ tail) : matchPath? path url =
      some (Assoc.ofPairs
        ((Matching.ofSegments 1 (segments path)).2.zip (vs.map String.ofList))) := by
  have hmatch := matchAt?_of_takes (h.takes htail 1) [] 0
  rw [List.append_nil] at hmatch
  rw [matchPath?_eq, hurl, hmatch, Option.map_some, pairsOf_numbered (h.length_names 1) rfl]

/-- An address that matches a path of simple segments is filled in, with an end behind it. -/
theorem exists_fills_of_matchPath? {path url : String} {params : Assoc String}
    (hss : ∀ s ∈ segments path, IsSimple s) (h : matchPath? path url = some params) : ∃ cs vs tail,
      matchedChars (before url "?") = cs ++ tail ∧ Fills (segments path) cs vs ∧ IsTail tail ∧
      params = Assoc.ofPairs
        ((Matching.ofSegments 1 (segments path)).2.zip (vs.map String.ofList)) := by
  rw [matchPath?_eq, Option.map_eq_some_iff] at h
  obtain ⟨m, hm, rfl⟩ := h
  rw [matchAt?, Option.map_eq_some_iff] at hm
  obtain ⟨r, hrun, rfl⟩ := hm
  obtain ⟨cs, vs, tail, hurl, hfills, htail, hgroups⟩ := fills_of_run hss hrun
  rw [List.append_nil] at hgroups
  exact ⟨cs, vs, tail, hurl, hfills,
    htail, by rw [pairsOf_numbered (hfills.length_names 1) hgroups]⟩

end WidgetBridge.Route
