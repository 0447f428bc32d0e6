import Mathlib.Data.List.Forall2
import WidgetBridge.Proofs.Assoc
import WidgetBridge.Proofs.Route.PathPattern

/-!
# Building and matching of addresses

A path whose bindings are well named (`WellNamed`) is built by filling its segments in
(`buildPath_eq`), and so the address matches the path with the values that it was built from
(`matchPath?_buildPath`).  In the other direction, an address that matches a path of required
parameters is built from the values that it gives, but for what may stand at its end
(`buildPath_matchPath?`).
-/

namespace WidgetBridge.Route

open WidgetBridge.Text

/-! ## Names of segments -/

/-- A segment that stands for itself, or that binds a parameter whose name holds no question
mark. -/
inductive WellNamed : String → Prop
  | fixed {s : String} (h : isBinding s = false) : WellNamed s
  | required {name : String} (hne : name ≠ "") (hmark : '?' ∉ name.toList) : WellNamed (":" ++ name)
  | optional {name : String} (hne : name ≠ "") (hmark : '?' ∉ name.toList) : WellNamed
    (":" ++ name ++ "?")
  | rest {name : String} (hmark : '?' ∉ name.toList) : WellNamed ("*" ++ name)

section Texts

variable {name : String}

theorem hasHead_colon_rest (name : String) : hasHead ("*" ++ name) ":" = false := by
  rw [hasHead, String.toList_append]
  rfl

theorem hasHead_rest_of_colon {s : String} (h : hasHead s ":" = true) : hasHead s "*" = false := by
  obtain ⟨rest, hrest⟩ := Option.isSome_iff_exists.1 h
  rw [hasHead, dropHead?_eq_some_iff.1 hrest]
  rfl

theorem hasTail_of_not_mem (h : '?' ∉ name.toList) : hasTail name "?" = false := by
  have hnone : dropHead? ['?'] name.toList.reverse = none := by
    refine Option.eq_none_iff_forall_ne_some.2 fun rest hrest => h ?_
    rw [← List.mem_reverse, dropHead?_eq_some_iff.1 hrest]
    simp
  exact Option.isSome_eq_false_iff.2 (Option.isNone_iff_eq_none.2 hnone)

theorem trimEndChar_of_not_mem (h : '?' ∉ name.toList) : trimEndChar '?' name = name := by
  have hkeep : dropEndWhile (· == '?') name.toList = name.toList := by
    unfold dropEndWhile
    cases hr : name.toList.reverse with
    | nil => simpa using hr.symm
    | cons c cs =>
      have hc : c ≠ '?' := by
        rintro rfl
        exact h (List.mem_reverse.1 (hr ▸ List.mem_cons_self))
      rw [List.dropWhile_cons_of_neg (by simpa using hc), ← hr, List.reverse_reverse]
  rw [trimEndChar, hkeep, String.ofList_toList]

theorem trimEndChar_append (h : '?' ∉ name.toList) : trimEndChar '?' (name ++ "?") = name := by
  have hdrop : dropEndWhile (· == '?') (name ++ "?").toList =
      dropEndWhile (· == '?') name.toList := by
    simp [dropEndWhile, String.toList_append]
  have hkeep := trimEndChar_of_not_mem h
  rwa [trimEndChar, ← hdrop] at hkeep

end Texts

theorem paramOf?_fixed {s : String} (h : isBinding s = false) : paramOf? s = none := by
  obtain ⟨hcolon, hstar⟩ := binding_of_not h
  simp [paramOf?, hcolon, hstar]

theorem paramOf?_required {name : String} (h : '?' ∉ name.toList) :
    paramOf? (":" ++ name) = some ⟨name, "string", true⟩ := by
  have hdrop : drop (":" ++ name) 1 = name := drop_mark ':' name
  simp [paramOf?, hasHead_append, hdrop, trimEndChar_of_not_mem h, hasTail_of_not_mem h]

theorem paramOf?_optional {name : String} (h : '?' ∉ name.toList) :
    paramOf? (":" ++ name ++ "?") = some ⟨name, "string", false⟩ := by
  have hdrop : drop (":" ++ (name ++ "?")) 1 = name ++ "?" := drop_mark ':' _
  rw [String.append_assoc]
  simp [paramOf?, hasHead_append, hdrop, trimEndChar_append h, hasTail_append]

theorem paramOf?_rest (name : String) :
    paramOf? ("*" ++ name) = some ⟨restName ("*" ++ name), "string", false⟩ := by
  simp [paramOf?, hasHead_append, hasHead_colon_rest]

theorem exists_paramOf? {s : String} (h : isBinding s = true) : ∃ p, paramOf? s = some p := by
  unfold paramOf?
  unfold isBinding at h
  split_ifs with hcolon hstar
  · exact ⟨_, rfl⟩
  · exact ⟨_, rfl⟩
  · simp [hcolon, hstar] at h

theorem isBinding_of_paramOf? {s : String} (h : paramOf? s = none) : isBinding s = false := by
  by_contra hbinding
  obtain ⟨p, hp⟩ := exists_paramOf? (Bool.of_not_eq_false hbinding)
  rw [hp] at h
  cases h

/-- The names that the pattern of segments gives its groups are those of the parameters. -/
theorem names_ofSegments {ss : List String} (h : ∀ s ∈ ss, WellNamed s) (index : Nat) :
    (Matching.ofSegments index ss).2 = (ss.filterMap paramOf?).map Param.name := by
  induction ss generalizing index with
  | nil => rfl
  | cons s ss ih =>
    obtain ⟨hs, hss⟩ := List.forall_mem_cons.1 h
    cases hs with
    | fixed h => rw [ofSegments_fixed h, List.filterMap_cons_none (paramOf?_fixed h), ih hss]
    | @required name hne hmark =>
      have hdrop : drop (":" ++ name) 1 = name := drop_mark ':' name
      have hreq : hasTail (drop (":" ++ name) 1) "?" = false := by
        rw [hdrop, hasTail_of_not_mem hmark]
      rw [ofSegments_required (hasHead_append ":" name) hreq,
        List.filterMap_cons_some (paramOf?_required hmark), ih hss, hdrop, List.map_cons]
    | @optional name hne hmark =>
      have hdrop : drop (":" ++ (name ++ "?")) 1 = name ++ "?" := drop_mark ':' _
      have hopt : hasTail (drop (":" ++ (name ++ "?")) 1) "?" = true := by
        rw [hdrop, hasTail_append]
      have htake : take (name ++ "?") ((name ++ "?").length - 1) = name := take_append name "?"
      rw [List.filterMap_cons_some (paramOf?_optional hmark), String.append_assoc,
        ofSegments_optional (hasHead_append ":" (name ++ "?")) hopt, ih hss, hdrop, htake,
        List.map_cons]
    | @rest name hmark =>
      rw [ofSegments_rest (hasHead_colon_rest name) (hasHead_append "*" name),
        List.filterMap_cons_some (paramOf?_rest name), ih hss, List.map_cons]

/-! ## Building -/

/-- What stands for a segment in an address; nothing for a parameter without value. -/
def filling? (params : Assoc Value) (s : String) : Option String :=
  match paramOf? s with
  | some p => (params.get? p.name).map Value.text
  | none => some s

/-- A required parameter without value. -/
def misses (params : Assoc Value) (p : Param) : Bool := p.required && (params.get? p.name).isNone

theorem fillSegment_eq {s : String} (h : WellNamed s) (params : Assoc Value) :
    fillSegment params s = match (paramOf? s).filter (misses params) with
      | some p => .error (.missingParameter p.name)
      | none => .ok (filling? params s) := by
  have hcolon : isBinding = fun s => hasHead s ":" || hasHead s "*" := rfl
  cases h with
  | fixed h =>
    rw [filling?, paramOf?_fixed h, fillSegment, h]
    rfl
  | @required name hne hmark =>
    have hdrop : drop (":" ++ name) 1 = name := drop_mark ':' name
    have hname : name.isEmpty = false := by simpa using hne
    have htail : hasTail (":" ++ name) "?" = false := by
      refine hasTail_of_not_mem ?_
      rw [String.toList_append]
      simpa using hmark
    rw [filling?, paramOf?_required hmark]
    simp only [fillSegment, hcolon, hasHead_append, hdrop, trimEndChar_of_not_mem hmark, hname,
      htail, misses, Option.filter, Bool.true_or, Bool.not_false, Bool.and_true, Bool.true_and,
      if_true, Bool.false_eq_true, if_false]
    cases params.get? name <;> rfl
  | @optional name hne hmark =>
    have hdrop : drop (":" ++ name ++ "?") 1 = name ++ "?" := by
      rw [String.append_assoc]
      exact drop_mark ':' _
    have hhead : hasHead (":" ++ name ++ "?") ":" = true := by
      rw [String.append_assoc, hasHead_append]
    have hname : name.isEmpty = false := by simpa using hne
    rw [filling?, paramOf?_optional hmark]
    simp only [fillSegment, hcolon, hhead, hdrop, trimEndChar_append hmark, hname,
      hasTail_append, misses, Option.filter, Bool.true_or, Bool.not_true, Bool.and_false,
      Bool.false_and, if_true, Bool.false_eq_true, if_false]
    cases params.get? name <;> rfl
  | @rest name hmark =>
    have hdrop : drop ("*" ++ name) 1 = name := drop_mark '*' name
    rw [filling?, paramOf?_rest]
    simp only [fillSegment, hcolon, hasHead_append, hasHead_colon_rest, hdrop,
      trimEndChar_of_not_mem hmark, restName, misses, Option.filter, Bool.or_true, Bool.false_and,
      if_true, Bool.false_eq_true, if_false]
    cases params.get? (if name.isEmpty then wildcardName else name) <;> rfl

theorem mapM_fillSegment {ss : List String} (h : ∀ s ∈ ss, WellNamed s) (params : Assoc Value) :
    ss.mapM (fillSegment params) = match (ss.filterMap paramOf?).find? (misses params) with
      | some p => .error (.missingParameter p.name)
      | none => .ok (ss.map (filling? params)) := by
  induction ss with
  | nil => rfl
  | cons s ss ih =>
    obtain ⟨hs, hss⟩ := List.forall_mem_cons.1 h
    rw [List.mapM_cons, fillSegment_eq hs, ih hss]
    cases hp : paramOf? s with
    | none =>
      rw [List.filterMap_cons_none hp]
      cases (ss.filterMap paramOf?).find? (misses params) <;> rfl
    | some p =>
      rw [List.filterMap_cons_some hp, List.find?_cons]
      cases hl : misses params p with
      | true =>
        rw [Option.filter_some_pos hl]
        rfl
      | false =>
        rw [Option.filter_some_neg (by simpa using hl)]
        cases (ss.filterMap paramOf?).find? (misses params) <;> rfl

/-- The address of segments that were filled in. -/
def joined (parts : List String) : String := "/" ++ join "/" parts

/-- A path is built exactly if every required parameter has a value; the first without one is
reported. -/
theorem buildPath_eq {path : String} (h : ∀ s ∈ segments path, WellNamed s)
    (params query : Assoc Value) :
    buildPath path params query = match (paramsOf path).find? (misses params) with
      | some p => .error (.missingParameter p.name)
      | none => .ok (if query.isEmpty then joined ((segments path).filterMap (filling? params))
          else joined ((segments path).filterMap (filling? params)) ++ "?" ++
            Url.writeQuery (query.map fun e => (e.1, e.2.text))) := by
  rw [buildPath, mapM_fillSegment h, paramsOf]
  cases ((segments path).filterMap paramOf?).find? (misses params) with
  | some p => rfl
  | none =>
    have hparts : ((segments path).map (filling? params)).filterMap id =
        (segments path).filterMap (filling? params) := by
      rw [List.filterMap_map]
      rfl
    rw [← hparts]
    cases query <;> rfl

/-! ## Values -/

/-- The values of names. -/
def Given (params : Assoc Value) (names : List String) (vs : List (List Char)) : Prop :=
  List.Forall₂ (fun name v => (params.get? name).map Value.text = some (String.ofList v)) names vs

/-- The parts of an address, each behind a slash. -/
def spread (parts : List String) : List Char := parts.flatMap fun part => '/' :: part.toList

/-- A segment gets a value that it can hold: not empty, without question mark, and without slash, or
without line feed for the rest of an address. -/
def Suits (params : Assoc Value) (s : String) : Prop :=
  ∀ p, paramOf? s = some p → ∃ v, params.get? p.name = some v ∧ v.text ≠ "" ∧ '?' ∉ v.text.toList ∧
    (if hasHead s "*" then '\n' else '/') ∉ v.text.toList

variable {params : Assoc Value} {ss : List String} {cs : List Char} {vs : List (List Char)}

/-- An address that is filled in is spread over the parts that stand for its segments. -/
theorem Fills.eq_spread (h : Fills ss cs vs)
    (hgiven : Given params ((ss.filterMap paramOf?).map Param.name) vs) :
    cs = spread (ss.filterMap (filling? params)) := by
  induction h with
  | nil => rfl
  | @fixed s ss cs vs h hrest ih =>
    rw [List.filterMap_cons_none (paramOf?_fixed h)] at hgiven
    have hpart : filling? params s = some s := by rw [filling?, paramOf?_fixed h]
    rw [List.filterMap_cons_some hpart, spread, List.flatMap_cons, ← spread, ← ih hgiven]
  | @one s ss v cs vs h hne hslash hrest ih =>
    obtain ⟨p, hp⟩ := exists_paramOf? (s := s) (by simp [isBinding, h])
    rw [List.filterMap_cons_some hp, List.map_cons] at hgiven
    obtain ⟨hvalue, hgiven⟩ := List.forall₂_cons.1 hgiven
    have hpart : filling? params s = some (String.ofList v) := by
      rw [filling?, hp]
      exact hvalue
    rw [List.filterMap_cons_some hpart, spread, List.flatMap_cons, ← spread, ← ih hgiven,
      String.toList_ofList]
  | @rest s v h hstar hne hline =>
    obtain ⟨p, hp⟩ := exists_paramOf? (s := s) (by simp [isBinding, hstar])
    rw [List.filterMap_cons_some hp, List.map_cons] at hgiven
    obtain ⟨hvalue, -⟩ := List.forall₂_cons.1 hgiven
    have hpart : filling? params s = some (String.ofList v) := by
      rw [filling?, hp]
      exact hvalue
    rw [List.filterMap_cons_some hpart, List.filterMap_nil, spread, List.flatMap_cons,
      String.toList_ofList, List.flatMap_nil, List.append_nil]

/-- Suitable values fill segments in, if the rest of an address comes last. -/
theorem exists_fills_of_suits (hlast : ∀ s ∈ ss.dropLast, hasHead s "*" = false)
    (h : ∀ s ∈ ss, Suits params s) :
    ∃ cs vs, Fills ss cs vs ∧ Given params ((ss.filterMap paramOf?).map Param.name) vs := by
  induction ss with
  | nil => exact ⟨[], [], .nil, .nil⟩
  | cons s ss ih =>
    obtain ⟨hs, hss⟩ := List.forall_mem_cons.1 h
    have hlater : ∀ s ∈ ss.dropLast, hasHead s "*" = false := by
      intro t ht
      cases ss with
      | nil => cases ht
      | cons u us => exact hlast t (List.mem_cons_of_mem _ ht)
    obtain ⟨cs, vs, hfills, hgiven⟩ := ih hlater hss
    by_cases hcolon : hasHead s ":" = true
    · obtain ⟨p, hp⟩ := exists_paramOf? (s := s) (by simp [isBinding, hcolon])
      obtain ⟨v, hv, hne, -, hslash⟩ := hs p hp
      rw [if_neg (by simp [hasHead_rest_of_colon hcolon])] at hslash
      refine ⟨'/' :: v.text.toList ++ cs, v.text.toList :: vs,
        .one hcolon (by simpa using hne) hslash hfills, ?_⟩
      rw [List.filterMap_cons_some hp, List.map_cons]
      exact .cons (by rw [hv, Option.map_some, String.ofList_toList]) hgiven
    · by_cases hstar : hasHead s "*" = true
      · obtain ⟨p, hp⟩ := exists_paramOf? (s := s) (by simp [isBinding, hstar])
        obtain ⟨v, hv, hne, -, hline⟩ := hs p hp
        rw [if_pos hstar] at hline
        -- only the last segment binds the rest of an address
        obtain rfl : ss = [] := by
          cases ss with
          | nil => rfl
          | cons t ts =>
            rw [hlast s List.mem_cons_self] at hstar
            cases hstar
        refine ⟨'/' :: v.text.toList, [v.text.toList],
          .rest (Bool.eq_false_iff.2 hcolon) hstar (by simpa using hne) hline, ?_⟩
        rw [List.filterMap_cons_some hp, List.filterMap_nil, List.map_cons, List.map_nil]
        exact .cons (by rw [hv, Option.map_some, String.ofList_toList]) .nil
      · have hfixed : isBinding s = false := by simp [isBinding, hcolon, hstar]
        refine ⟨'/' :: s.toList ++ cs, vs, .fixed hfixed hfills, ?_⟩
        rwa [List.filterMap_cons_none (paramOf?_fixed hfixed)]

/-! ## Addresses -/

theorem toList_joined (parts : List String) :
    (joined parts).toList = if parts = [] then ['/'] else spread parts := by
  cases parts with
  | nil => rfl
  | cons s ss =>
    rw [if_neg (List.cons_ne_nil s ss), joined, toList_slash, toList_join_cons, spread,
      List.flatMap_cons]
    rfl

theorem matchedChars_joined {parts : List String} (h : spread parts ≠ ['/']) :
    matchedChars (joined parts) = spread parts := by
  have hchars := toList_joined parts
  unfold matchedChars
  by_cases hparts : parts = []
  · rw [hparts]
    rfl
  · rw [if_neg hparts] at hchars
    have hne : joined parts ≠ "/" := by
      intro heq
      rw [heq] at hchars
      exact h hchars.symm
    rw [if_neg (by simpa using hne), hchars]

theorem before_of_not_mem {s : String} (h : '?' ∉ s.toList) : before s "?" = s := by
  have hcut : cutAt? s "?" = none := cutAt?_eq_none rfl h
  rw [before, hcut]

theorem before_append {s : String} (h : '?' ∉ s.toList) (rest : String) :
    before (s ++ "?" ++ rest) "?" = s := by
  have hcut : cutAt? (s ++ "?" ++ rest) "?" = some (s, rest) := cutAt?_of_not_mem rfl h rest
  rw [before, hcut]

theorem not_mem_joined {parts : List String} (h : ∀ s ∈ parts, '?' ∉ s.toList) :
    '?' ∉ (joined parts).toList := by
  rw [toList_joined]
  split_ifs
  · decide
  · intro hmem
    obtain ⟨s, hs, hc⟩ := List.mem_flatMap.1 hmem
    rcases List.mem_cons.1 hc with hc | hc
    · cases hc
    · exact h s hs hc

theorem not_mem_before (s : String) : '?' ∉ (before s "?").toList := by
  by_cases h : '?' ∈ s.toList
  · obtain ⟨as, bs, hs, has⟩ := List.eq_append_cons_of_mem h
    have hcut : cutAt? s "?" = some (String.ofList as, String.ofList bs) := by
      rw [cutAt?, hs, show "?".toList = ['?'] from rfl, cutFirst?_of_not_mem has]
      rfl
    rwa [before, hcut, String.toList_ofList]
  · rwa [before_of_not_mem h]

theorem ne_empty_of_mem_segments {path s : String} (h : s ∈ segments path) : s ≠ "" := by
  simpa using (List.mem_filter.1 h).2

theorem Given.exists_of_mem {names : List String} (h : Given params names vs) {name : String}
    (hname : name ∈ names) :
    ∃ v, params.get? name = some v := by
  induction h with
  | nil => cases hname
  | @cons n v names vs hvalue hrest ih =>
    rcases List.mem_cons.1 hname with rfl | hname
    · obtain ⟨w, hw, -⟩ := Option.map_eq_some_iff.1 hvalue
      exact ⟨w, hw⟩
    · exact ih hname

theorem get?_ofPairs_of_given {names : List String} (h : Given params names vs) :
    Assoc.keys (Assoc.ofPairs (names.zip (vs.map String.ofList))) = names.eraseDups ∧
      ∀ name ∈ names, (Assoc.ofPairs (names.zip (vs.map String.ofList))).get? name =
        (params.get? name).map Value.text := by
  have hlen : names.length = vs.length := List.Forall₂.length_eq h
  have hkeys : Assoc.keys (Assoc.ofPairs (names.zip (vs.map String.ofList))) = names.eraseDups := by
    rw [Assoc.keys_ofPairs, Assoc.keys, List.map_fst_zip (by simp [hlen])]
  refine ⟨hkeys, fun name hname => ?_⟩
  rw [← List.mem_eraseDups, ← hkeys] at hname
  obtain ⟨⟨name, v⟩, hmem, rfl⟩ := List.mem_map.1 hname
  have hlookup := Assoc.lookup_of_mem (Assoc.nodup_keys_ofPairs _) hmem
  have hpair := Assoc.mem_of_mem_ofPairs hmem
  rw [List.zip_map_right] at hpair
  obtain ⟨⟨name, cs⟩, hzip, ⟨⟩⟩ := List.mem_map.1 hpair
  exact hlookup.trans ((List.forall₂_iff_zip.1 h).2 hzip).symm

theorem find?_misses_of_suits (h : ∀ s ∈ ss, Suits params s) :
    (ss.filterMap paramOf?).find? (misses params) = none := by
  refine List.find?_eq_none.2 fun p hp => ?_
  obtain ⟨s, hs, hparam⟩ := List.mem_filterMap.1 hp
  obtain ⟨v, hv, -⟩ := h s hs p hparam
  simp [misses, hv]

theorem not_mem_filling (hfixed : ∀ s ∈ ss, isBinding s = false → '?' ∉ s.toList)
    (h : ∀ s ∈ ss, Suits params s) :
    ∀ part ∈ ss.filterMap (filling? params), '?' ∉ part.toList := by
  intro part hpart
  obtain ⟨s, hs, hfilling⟩ := List.mem_filterMap.1 hpart
  unfold filling? at hfilling
  split at hfilling
  · next p hp =>
    obtain ⟨v, hv, -, hmark, -⟩ := h s hs p hp
    rw [hv] at hfilling
    cases hfilling
    exact hmark
  · next hp =>
    rw [← Option.some.inj hfilling]
    exact hfixed s hs (isBinding_of_paramOf? hp)

/-- The address of suitable values matches, whatever query stands behind it. -/
theorem exists_matchPath?_of_suits {path url : String} (hnamed : ∀ s ∈ segments path, WellNamed s)
    (hlast : ∀ s ∈ (segments path).dropLast, hasHead s "*" = false)
    (hsuits : ∀ s ∈ segments path, Suits params s)
    (hurl : before url "?" = joined ((segments path).filterMap (filling? params))) :
    ∃ found, matchPath? path url = some found ∧
      Assoc.keys found = ((paramsOf path).map Param.name).eraseDups ∧
      ∀ p ∈ paramsOf path, Assoc.get? found p.name = (params.get? p.name).map Value.text := by
  obtain ⟨cs, vs, hfills, hgiven⟩ := exists_fills_of_suits hlast hsuits
  have hcs := hfills.eq_spread hgiven
  have hslash := hfills.ne_slash fun s hs => ne_empty_of_mem_segments hs
  rw [hcs] at hfills hslash
  have hchars : matchedChars (before url "?") =
      spread ((segments path).filterMap (filling? params)) ++ [] := by
    rw [hurl, matchedChars_joined hslash, List.append_nil]
  have hmatch := matchPath?_of_fills hfills (.inl rfl) hchars
  rw [names_ofSegments hnamed 1] at hmatch
  obtain ⟨hkeys, hget⟩ := get?_ofPairs_of_given hgiven
  exact ⟨_, hmatch, hkeys, fun p hp => hget p.name (List.mem_map_of_mem hp)⟩

/-- An address that is built matches its path, and gives back the value of each parameter of the
path as it was written, and nothing else; this is so where every parameter has a value that it can
hold.  An address is not built exactly if a required parameter has no value. -/
theorem matchPath?_buildPath {path : String} (hnamed : ∀ s ∈ segments path, WellNamed s)
    (params query : Assoc Value) :
    ((∀ s ∈ segments path, isBinding s = false → '?' ∉ s.toList) →
      (∀ s ∈ (segments path).dropLast, hasHead s "*" = false) →
        (∀ s ∈ segments path, Suits params s) →
      ∃ url found, buildPath path params query = .ok url ∧ matchPath? path url = some found ∧
        Assoc.keys found = ((paramsOf path).map Param.name).eraseDups ∧
        ∀ p ∈ paramsOf path, Assoc.get? found p.name = (params.get? p.name).map Value.text) ∧
    (∀ f, buildPath path params query = .error f → ∃ name, f = .missingParameter name) ∧
    ((∃ name, buildPath path params query = .error (.missingParameter name)) ↔
      ∃ p ∈ paramsOf path, p.required = true ∧ params.get? p.name = none) := by
  have hbuild := buildPath_eq hnamed params query
  refine ⟨fun hfixed hlast hsuits => ?_, ?_, ?_⟩
  · have hmark := not_mem_joined (not_mem_filling hfixed hsuits)
    rw [show (paramsOf path).find? (misses params) = none from find?_misses_of_suits hsuits]
      at hbuild
    obtain ⟨url, hurl, haddress⟩ : ∃ url, buildPath path params query = .ok url ∧
        before url "?" = joined ((segments path).filterMap (filling? params)) := by
      refine ⟨_, hbuild, ?_⟩
      split_ifs
      · exact before_of_not_mem hmark
      · exact before_append hmark _
    obtain ⟨found, hfound⟩ := exists_matchPath?_of_suits hnamed hlast hsuits haddress
    exact ⟨url, found, hurl, hfound⟩
  · intro f hf
    rw [hbuild] at hf
    split at hf
    · next p hp =>
      cases hf
      exact ⟨p.name, rfl⟩
    · cases hf
  · have hmisses : (∃ p ∈ paramsOf path, p.required = true ∧ params.get? p.name = none) ↔
        ((paramsOf path).find? (misses params)).isSome = true := by
      rw [List.find?_isSome]
      simp [misses]
    rw [hmisses, hbuild]
    cases (paramsOf path).find? (misses params) with
    | some p => simp
    | none => simp

/-- A path with a parameter of each kind, and one of its addresses. -/
theorem matchPath?_buildPath_shop :
    let path := "/shop/:id/:tab?/*rest"
    let params : Assoc Value :=
      [("rest", .str "a//b"), ("page", .null), ("id", .int 7), ("tab", .str "new")]
    (∀ s ∈ segments path, WellNamed s) ∧ (∀ s ∈ segments path, Suits params s) ∧
      ∃ found, matchPath? path "/shop/7/new/a//b?q=1" = some found ∧
        Assoc.keys found = ["id", "tab", "rest"] ∧
        Assoc.get? found "rest" = some "a//b" := by
  intro path params
  have hsegments : segments path = ["shop", ":id", ":tab?", "*rest"] := by decide
  have hnamed : ∀ s ∈ segments path, WellNamed s := by
    rw [hsegments]
    simp only [List.forall_mem_cons, List.not_mem_nil, false_implies, implies_true, and_true]
    have hid : WellNamed (":" ++ "id") := .required (by decide) (by decide)
    have htab : WellNamed (":" ++ "tab" ++ "?") := .optional (by decide) (by decide)
    have hrest : WellNamed ("*" ++ "rest") := .rest (by decide)
    exact ⟨.fixed (by decide), hid, htab, hrest⟩
  have hsuits : ∀ s ∈ segments path, Suits params s := by
    rw [hsegments]
    simp only [List.forall_mem_cons, List.not_mem_nil, false_implies, implies_true, and_true]
    refine ⟨?_, ?_, ?_, ?_⟩ <;> intro p hp <;> cases hp <;>
      exact ⟨_, rfl, by decide, by decide, by decide⟩
  have hfixed : ∀ s ∈ segments path, isBinding s = false → '?' ∉ s.toList := by
    rw [hsegments]
    decide
  have hlast : ∀ s ∈ (segments path).dropLast, hasHead s "*" = false := by
    rw [hsegments]
    decide
  obtain ⟨url, found, hbuild, hmatch, hkeys, hget⟩ :=
    (matchPath?_buildPath hnamed params [("q", .int 1)]).1 hfixed hlast hsuits
  have hurl : (buildPath path params [("q", .int 1)]).toOption = some "/shop/7/new/a//b?q=1" := by
    decide +kernel
  rw [hbuild] at hurl
  obtain rfl : url = "/shop/7/new/a//b?q=1" := Option.some.inj hurl
  have hparams : paramsOf path =
      [⟨"id", "string", true⟩, ⟨"tab", "string", false⟩, ⟨"rest", "string", false⟩] := by
    decide
  rw [hparams] at hkeys hget
  exact ⟨hnamed, hsuits, found, hmatch, hkeys, hget ⟨"rest", "string", false⟩ (by simp)⟩

/-! ## Matching before building -/

/-- The values of a match, to build an address from. -/
def asValues (params : Assoc String) : Assoc Value := params.map fun e => (e.1, .str e.2)

theorem given_asValues {names : List String} (hlen : names.length = vs.length)
    (hnames : names.Nodup) :
    Given (asValues (names.zip (vs.map String.ofList))) names vs := by
  have hzip : (names.zip (vs.map String.ofList)).map Prod.fst = names :=
    List.map_fst_zip (by simp [hlen])
  have hkeys : (Assoc.keys (asValues (names.zip (vs.map String.ofList)))).Nodup := by
    have hsame : Assoc.keys (asValues (names.zip (vs.map String.ofList))) = names := by
      rw [Assoc.keys, asValues, List.map_map]
      exact hzip
    rwa [hsame]
  refine List.forall₂_iff_zip.2 ⟨hlen, fun {name v} hmem => ?_⟩
  have hpair : (name, String.ofList v) ∈ names.zip (vs.map String.ofList) := by
    rw [List.zip_map_right]
    exact List.mem_map.2 ⟨(name, v), hmem, rfl⟩
  have hvalue : (name, Value.str (String.ofList v)) ∈ asValues (names.zip (vs.map String.ofList)) :=
    List.mem_map.2 ⟨_, hpair, rfl⟩
  rw [Assoc.get?, Assoc.lookup_of_mem hkeys hvalue]
  rfl

/-- A segment that stands for itself, or for a required parameter whose name holds no question
mark. -/
def IsRequired (s : String) : Prop :=
  isBinding s = false ∨ ∃ name, s = ":" ++ name ∧ name ≠ "" ∧ '?' ∉ name.toList

theorem IsRequired.wellNamed {s : String} (h : IsRequired s) : WellNamed s := by
  rcases h with h | ⟨name, rfl, hne, hmark⟩
  · exact .fixed h
  · exact .required hne hmark

theorem IsRequired.isSimple {s : String} (h : IsRequired s) : IsSimple s := by
  rcases h with h | ⟨name, rfl, -, hmark⟩
  · exact .inl h
  · have hdrop : drop (":" ++ name) 1 = name := drop_mark ':' name
    exact .inr ⟨hasHead_append ":" name, by rw [hdrop, hasTail_of_not_mem hmark]⟩

theorem IsRequired.not_rest {s : String} (h : IsRequired s) : hasHead s "*" = false := by
  rcases h with h | ⟨name, rfl, -, -⟩
  · exact (binding_of_not h).2
  · exact hasHead_rest_of_colon (hasHead_append ":" name)

/-- An address is what was built, but for a slash at its end; the empty address is the root. -/
def Reaches (built address : String) : Prop :=
  address = built ∨ address = built ++ "/" ∨ (address = "" ∧ built = "/")

section Reaches

variable {parts : List String} {tail : List Char} {address : String}

theorem reaches_of_chars (htail : tail = [] ∨ tail = ['/'])
    (h : address.toList = spread parts ++ tail) :
    Reaches (joined parts) address := by
  have hchars := toList_joined parts
  unfold Reaches
  simp only [← String.toList_inj, String.toList_append, h]
  by_cases hparts : parts = []
  · rw [if_pos hparts] at hchars
    have hspread : spread parts = [] := by rw [hparts]; rfl
    rw [hspread, List.nil_append, hchars]
    rcases htail with rfl | rfl
    · exact .inr (.inr ⟨rfl, rfl⟩)
    · exact .inl rfl
  · rw [if_neg hparts] at hchars
    rw [hchars]
    rcases htail with rfl | rfl
    · exact .inl (List.append_nil _)
    · exact .inr (.inl rfl)

theorem IsTail.cases (h : IsTail tail) :
    (tail = [] ∨ tail = ['/']) ∨ ∃ t, (t = [] ∨ t = ['/']) ∧ tail = t ++ ['\n'] := by
  simp only [IsTail, List.mem_cons, List.not_mem_nil, or_false] at h
  rcases h with rfl | rfl | rfl | rfl
  · exact .inl (.inl rfl)
  · exact .inl (.inr rfl)
  · exact .inr ⟨[], .inl rfl, rfl⟩
  · exact .inr ⟨['/'], .inr rfl, rfl⟩

/-- What stands behind the parts of an address that is reached is no line feed. -/
theorem newline_not_mem_of_reaches (hne : spread parts ≠ ['/']) (h : Reaches (joined parts) address)
    (haddress : address.toList = spread parts ++ tail) : '\n' ∉ tail := by
  have hchars := toList_joined parts
  unfold Reaches at h
  simp only [← String.toList_inj, String.toList_append, haddress] at h
  by_cases hparts : parts = []
  · rw [if_pos hparts] at hchars
    have hspread : spread parts = [] := by rw [hparts]; rfl
    rw [hspread, List.nil_append, hchars] at h
    rcases h with rfl | rfl | ⟨rfl, -⟩ <;> decide
  · rw [if_neg hparts] at hchars
    rw [hchars] at h
    rcases h with h | h | ⟨-, h⟩
    · rw [List.append_right_eq_self.1 h]
      exact List.not_mem_nil
    · rw [List.append_cancel_left h]
      decide
    · exact absurd h hne

end Reaches

/-- A match gives the values from which the address was built, and the address that was built is
followed by no more than a slash and a line feed. -/
theorem built_of_matchPath? {path url : String} {params : Assoc String}
    (hsegments : ∀ s ∈ segments path, IsRequired s)
    (hnames : ((paramsOf path).map Param.name).Nodup) (h : matchPath? path url = some params) :
    let parts := (segments path).filterMap (filling? (asValues params))
    buildPath path (asValues params) [] = .ok (joined parts) ∧ spread parts ≠ ['/'] ∧
      (∃ tail, (before url "?").toList = spread parts ++ tail ∧ IsTail tail) ∧
      ∀ address tail, '?' ∉ address.toList → (tail = [] ∨ tail = ['/']) →
        address.toList = spread parts ++ tail →
        matchPath? path address = some params := by
  intro parts
  have hnamed : ∀ s ∈ segments path, WellNamed s := fun s hs => (hsegments s hs).wellNamed
  obtain ⟨cs, vs, tail, hurl, hfills, htail, hparams⟩ :=
    exists_fills_of_matchPath? (fun s hs => (hsegments s hs).isSimple) h
  have hmatch (address : String) (tail : List Char) (ht : tail = [] ∨ tail = ['/'])
      (hchars : matchedChars (before address "?") = cs ++ tail) : matchPath? path address =
        some params := by
    rw [hparams]
    exact matchPath?_of_fills hfills
      (ht.imp_right fun ht => ⟨ht, fun s hs => (hsegments s hs).not_rest⟩) hchars
  have hlen := hfills.length_names 1
  rw [names_ofSegments hnamed 1] at hparams hlen
  have hkeys : Assoc.keys
      ((((segments path).filterMap paramOf?).map Param.name).zip (vs.map String.ofList)) =
      ((segments path).filterMap paramOf?).map Param.name := List.map_fst_zip (by simp [← hlen])
  have hgiven : Given (asValues params)
      (((segments path).filterMap paramOf?).map Param.name) vs := by
    rw [hparams, Assoc.ofPairs_of_nodup (by rwa [hkeys])]
    exact given_asValues hlen hnames
  have hslash : cs ≠ ['/'] := hfills.ne_slash fun s hs => ne_empty_of_mem_segments hs
  have hcs : cs = spread parts := hfills.eq_spread hgiven
  rw [← hcs]
  refine ⟨?_, hslash, ?_, fun address tail hmark ht hchars => ?_⟩
  · have hnone : (paramsOf path).find? (misses (asValues params)) = none := by
      rw [List.find?_eq_none]
      intro p hp
      obtain ⟨v, hv⟩ := hgiven.exists_of_mem (List.mem_map_of_mem hp)
      simp [misses, hv]
    rw [buildPath_eq hnamed, hnone]
    rfl
  · unfold matchedChars at hurl
    split_ifs at hurl with hroot
    · obtain ⟨rfl, rfl⟩ := List.append_eq_nil_iff.1 hurl.symm
      rw [beq_iff_eq.1 hroot]
      exact ⟨['/'], rfl, by simp [IsTail]⟩
    · exact ⟨tail, hurl, htail⟩
  · by_cases hroot : address = "/"
    · have hnil : cs = [] := by
        rw [hroot] at hchars
        rcases ht with rfl | rfl
        · exact absurd ((List.append_nil cs).symm.trans hchars.symm) hslash
        · exact List.append_left_eq_self.1 hchars.symm
      refine hmatch address [] (.inl rfl) ?_
      rw [before_of_not_mem hmark, hroot, hnil]
      rfl
    · refine hmatch address tail ht ?_
      rw [before_of_not_mem hmark, matchedChars, if_neg (by simpa using hroot), hchars]

/-- An address that matches a path whose parameters are required, under distinct names, is built
from the values that it gives, but for a line feed at its end: it is the address that was built, up
to a slash at the end, exactly if it does not end in a line feed without which it gives the same
values. -/
theorem buildPath_matchPath? {path url : String} {params : Assoc String}
    (hsegments : ∀ s ∈ segments path, IsRequired s)
    (hnames : ((paramsOf path).map Param.name).Nodup) (h : matchPath? path url = some params) :
    ∃ built, buildPath path (asValues params) [] = .ok built ∧
      (Reaches built (before url "?") ∨ ∃ front, before url "?" = front ++ "\n" ∧
        Reaches built front) ∧
      (Reaches built (before url "?") ↔
        ¬∃ front, before url "?" = front ++ "\n" ∧ matchPath? path front = some params) := by
  obtain ⟨hbuild, hslash, ⟨tail, hurl, htail⟩, hmatch⟩ := built_of_matchPath? hsegments hnames h
  have hmark := not_mem_before url
  refine ⟨_, hbuild, ?_⟩
  rcases IsTail.cases htail with ht | ⟨t, ht, rfl⟩
  · have hreach := reaches_of_chars ht hurl
    refine ⟨.inl hreach, fun _ => ?_, fun _ => hreach⟩
    rintro ⟨front, hfront, hsame⟩
    rw [hfront, String.toList_append, List.mem_append, not_or] at hmark
    obtain ⟨-, -, ⟨tail', hchars, -⟩, -⟩ := built_of_matchPath? hsegments hnames hsame
    rw [before_of_not_mem hmark.1] at hchars
    have hbefore : (before url "?").toList =
        spread ((segments path).filterMap (filling? (asValues params))) ++ (tail' ++ ['\n']) := by
      rw [hfront, String.toList_append, hchars, List.append_assoc]
      rfl
    exact newline_not_mem_of_reaches hslash hreach hbefore (by simp)
  · have hnot := fun hreach => newline_not_mem_of_reaches hslash hreach hurl (by simp)
    rw [← List.append_assoc] at hurl
    obtain ⟨front, hfront, hchars⟩ : ∃ front, before url "?" = front ++ "\n" ∧
        front.toList = spread ((segments path).filterMap (filling? (asValues params))) ++ t := by
      refine ⟨String.ofList (spread ((segments path).filterMap (filling? (asValues params))) ++ t),
        ?_, String.toList_ofList⟩
      rw [← String.toList_inj, String.toList_append, hurl, String.toList_ofList]
      rfl
    rw [hfront, String.toList_append, List.mem_append, not_or] at hmark
    have hsame := hmatch front t hmark.1 ht hchars
    exact ⟨.inr ⟨front, hfront, reaches_of_chars ht hchars⟩, fun hreach => absurd hreach hnot,
      fun hnone => absurd ⟨front, hfront, hsame⟩ hnone⟩

/-- The values that an address gives to a page of a user. -/
theorem buildPath_matchPath?_user :
    (∀ s ∈ segments "/user/:id/edit/:page", IsRequired s) ∧
      ((paramsOf "/user/:id/edit/:page").map Param.name).Nodup ∧
      matchPath? "/user/:id/edit/:page" "/user/7/edit/a\n/?q" =
        some [("id", "7"), ("page", "a\n")] ∧
      ∃ built, buildPath "/user/:id/edit/:page" (asValues [("id", "7"), ("page", "a\n")]) [] =
        .ok built ∧
        Reaches built "/user/7/edit/a\n/" := by
  have hsegments : ∀ s ∈ segments "/user/:id/edit/:page", IsRequired s := by
    have hlist : segments "/user/:id/edit/:page" = ["user", ":id", "edit", ":page"] := by decide
    rw [hlist]
    simp only [List.forall_mem_cons, List.not_mem_nil, false_implies, implies_true, and_true]
    exact ⟨.inl (by decide), .inr ⟨"id", by decide⟩, .inl (by decide), .inr ⟨"page", by decide⟩⟩
  have hnames : ((paramsOf "/user/:id/edit/:page").map Param.name).Nodup := by decide
  have hmatch : matchPath? "/user/:id/edit/:page" "/user/7/edit/a\n/?q" =
      some [("id", "7"), ("page", "a\n")] := by
    decide +kernel
  obtain ⟨built, hbuild, hends, -⟩ := buildPath_matchPath? hsegments hnames hmatch
  have haddress : before "/user/7/edit/a\n/?q" "?" = "/user/7/edit/a\n/" := by decide +kernel
  refine ⟨hsegments, hnames, hmatch, built, hbuild, ?_⟩
  rw [haddress] at hends
  rcases hends with hreach | ⟨front, hfront, -⟩
  · exact hreach
  · have hlast := congrArg (fun s => s.toList.getLast?) hfront
    simp [String.toList_append] at hlast

/-- A line feed behind the last segment is passed over, and it is no part of the address that was
built. -/
theorem buildPath_matchPath?_newline :
    matchPath? "/home" "/home\n" = some [] ∧ buildPath "/home" [] [] = .ok "/home" ∧
      ¬Reaches "/home" (before "/home\n" "?") := by
  have haddress : before "/home\n" "?" = "/home\n" := by decide +kernel
  refine ⟨by decide +kernel, rfl, ?_⟩
  rw [haddress]
  unfold Reaches
  decide

end WidgetBridge.Route
