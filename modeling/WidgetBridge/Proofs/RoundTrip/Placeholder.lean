import WidgetBridge.Mapping.Bundled
import WidgetBridge.Proofs.Reading.WidgetTree
import WidgetBridge.Proofs.Route.Recognition
import WidgetBridge.Proofs.Text.Search
import WidgetBridge.Proofs.WidgetGrammar.Comment
import WidgetBridge.Proofs.WidgetGrammar.Constants
import WidgetBridge.Writing.Widget

/-!
# Placeholders that survive widget source

A placeholder without children is written as an empty container with a comment in it, which holds
the name and the props of the widget as a call (`placeholderText`).  On its way back this call is
cut off as a comment, found in the comment by a pattern, and read as source of its own:

* `search?_placeholderComment` finds the call, whatever the texts in it hold;
* `placeholderOf_placeholderText` reads the call;
* `widgetSource_placeholder` puts the two together.

Two things get lost.  A text that opens a comment keeps the comment of the placeholder from ending,
and a widget called like one of the words in front of constructors is no call.
-/

namespace WidgetBridge.RoundTrip

open WidgetBridge.Text WidgetBridge.Text.Pattern WidgetBridge.WidgetGrammar WidgetBridge.Mapping
  WidgetBridge.Writing WidgetBridge.Reading

/-! ## What is written -/

/-- A prop that the comment of a placeholder takes: its name is an identifier, and its value is data
without doubles whose source does not close the comment. -/
structure Noted (p : String × PropValue) : Prop where
  name : Route.isIdentifier p.1 = true
  value : ∃ v, p.2 = .literal v ∧ Exact v
  unclosed : occursIn "*/" (ofProp p.2) = false

/-- A prop as it is written in the comment. -/
def noted (p : String × PropValue) : String := p.1 ++ ": " ++ ofProp p.2

/-- What stands in the comment of a placeholder. -/
def markerText (name : String) (props : Props) : String :=
  " unmapped widget: " ++ placeholderText name props

variable {name : String} {props : Props}

theorem toList_markerText (name : String) (props : Props) : (markerText name props).toList =
    " unmapped widget: ".toList ++ (placeholderText name props).toList :=
  String.toList_append

theorem matchesStart_plainName {s : String} (h : Route.isIdentifier s = true) :
    plainName.matchesStart s = true := by
  rw [Route.isIdentifier, Bool.and_eq_true] at h
  obtain ⟨c, cs, hs, hc, hcs⟩ := isName_iff.1 h.1
  have hdollar : '$' ∉ c :: cs := by simpa [hs] using h.2
  rw [List.mem_cons, not_or] at hdollar
  have hfirst : (isLetter c || c == '_') = true := by
    simpa [isNameStart, Ne.symm hdollar.1] using hc
  have hrest : ∀ d ∈ cs, isWord d = true := by
    intro d hd
    have hne : d ≠ '$' := by
      rintro rfl
      exact hdollar.2 hd
    simpa [hne] using isWord_of_isNameChar (hcs d hd)
  have hhead : Opens (textStart ++ Pattern.char fun c => isLetter c || c == '_') ([] ++ [c])
      (cs ++ []) [] :=
    (opens_textStart _).seq (takes_char hfirst _)
  have hname : Opens plainName (c :: cs) [] [] :=
    (hhead.seq (takes_many hrest (by simp))).seq_nil takes_textEnd
  rw [matchesStart, matchStart?_of_opens (by simpa using hs) hname]
  rfl

theorem placeholderText_eq (name : String) (h : ∀ p ∈ props, Noted p) :
    placeholderText name props =
      if props.isEmpty then name else name ++ "(" ++ join ", " (props.map noted) ++ ")" := by
  unfold placeholderText
  rw [List.filterMap_congr (g := fun p => some (noted p)), List.filterMap_eq_map']
  · simp only [List.isEmpty_map]
  · intro p hp
    simp [matchesStart_plainName (h p hp).name, (h p hp).unclosed, noted]

/-! ## Marks in what is written -/

section Marks

variable {x y : Char} (hx : x ∈ ['/', '*']) (hy : y ∈ ['/', '*'])

include hx hy

/-- A mark of a comment lies on one side of a character that is in no mark. -/
theorem mark_append {d : Char} (hd : d ∉ ['/', '*']) {cs rest : List Char} :
    [x, y] <:+: cs ++ d :: rest ↔ [x, y] <:+: cs ∨ [x, y] <:+: rest :=
  infix_pair_append (by rintro rfl; exact hd hx) (by rintro rfl; exact hd hy)

omit hy in
theorem no_mark_of_isName {s : String} (h : isName s = true) : ¬ [x, y] <:+: s.toList := by
  intro hmark
  have hall : ∀ c ∈ ['/', '*'], isNameChar c = false := forall_mem_of_all (by decide)
  exact not_mem_of_isName h (hall x hx) (hmark.subset List.mem_cons_self)

theorem mark_noted {p : String × PropValue} (hp : isName p.1 = true) :
    [x, y] <:+: (noted p).toList ↔ [x, y] <:+: (ofProp p.2).toList := by
  have hlist : (noted p).toList = p.1.toList ++ ':' :: ([] ++ ' ' :: (ofProp p.2).toList) := by
    simp [noted]
  rw [hlist, mark_append hx hy (by decide), mark_append hx hy (by decide)]
  simp [no_mark_of_isName hx hp]

theorem mark_join {as : List String} :
    [x, y] <:+: (join ", " as).toList ↔ ∃ a ∈ as, [x, y] <:+: a.toList := by
  induction as with
  | nil => simp [join]
  | cons a as ih =>
    cases as with
    | nil => simp [join]
    | cons b as =>
      have hlist : (join ", " (a :: b :: as)).toList =
          a.toList ++ ',' :: ([] ++ ' ' :: (join ", " (b :: as)).toList) := by
        simp [join_cons_cons]
      rw [hlist, mark_append hx hy (by decide), mark_append hx hy (by decide), ih]
      simp

/-- There is a mark of a comment in what is written exactly if one is in the value of a prop. -/
theorem mark_markerText (hname : isName name = true) (h : ∀ p ∈ props, Noted p) :
    [x, y] <:+: (markerText name props).toList ↔ ∃ p ∈ props, [x, y] <:+: (ofProp p.2).toList := by
  have hwords : (markerText name props).toList =
      " unmapped widget:".toList ++ ' ' :: (placeholderText name props).toList := by
    simp [toList_markerText]
  have hx' : x ∉ " unmapped widget:".toList := by
    have hall : ∀ c ∈ ['/', '*'], c ∉ " unmapped widget:".toList := forall_mem_of_all (by decide)
    exact hall x hx
  have hnone : ¬ [x, y] <:+: " unmapped widget:".toList :=
    fun hmark => hx' (hmark.subset List.mem_cons_self)
  rw [hwords, mark_append hx hy (by decide), or_iff_right hnone, placeholderText_eq name h]
  split_ifs with hempty
  · rw [List.isEmpty_iff.1 hempty]
    simp [no_mark_of_isName hx hname]
  · have hlist : (name ++ "(" ++ join ", " (props.map noted) ++ ")").toList =
        name.toList ++ '(' :: ((join ", " (props.map noted)).toList ++ ')' :: []) := by
      simp
    rw [hlist, mark_append hx hy (by decide), mark_append hx hy (by decide), mark_join hx hy,
      or_iff_right (no_mark_of_isName hx hname)]
    simp only [List.infix_nil, reduceCtorEq, or_false, List.mem_map, exists_exists_and_eq_and]
    refine exists_congr fun p => and_congr_right fun hp => ?_
    exact mark_noted hx hy (Route.isName_of_isIdentifier (h p hp).name)

end Marks

/-- Whether the source of some prop opens a comment. -/
def opensComment (props : Props) : Bool := props.any fun p => occursIn "/*" (ofProp p.2)

theorem opensComment_iff (hname : isName name = true) (h : ∀ p ∈ props, Noted p) :
    opensComment props = true ↔ ['/', '*'] <:+: (markerText name props).toList := by
  rw [mark_markerText (by decide) (by decide) hname h, opensComment, List.any_eq_true]
  simp only [occursIn_iff]
  exact Iff.rfl

theorem not_closed (hname : isName name = true) (h : ∀ p ∈ props, Noted p) :
    ¬ ['*', '/'] <:+: (markerText name props).toList := by
  rw [mark_markerText (by decide) (by decide) hname h]
  rintro ⟨p, hp, hmark⟩
  have hclosed : occursIn "*/" (ofProp p.2) = true := occursIn_of_infix hmark
  rw [(h p hp).unclosed] at hclosed
  cases hclosed

/-! ## The call in the comment -/

/-- The end of a comment starts nowhere in a text without its mark, if the text does not end with
what the mark starts with. -/
theorem passes_closing {ds : List Char} (hmark : ¬ ['*', '/'] <:+: ds)
    (hlast : ∀ d ∈ ds.getLast?, isBlank d = false ∧ d ≠ '*') : Passes (blanks ++ lit "*/") ds := by
  induction ds with
  | nil => trivial
  | cons c cs ih =>
    have hrest : ∀ d ∈ cs.getLast?, isBlank d = false ∧ d ≠ '*' := by
      intro d hd
      apply hlast d
      rw [List.getLast?_cons, Option.mem_def.1 hd]
      rfl
    refine ⟨fun rest => ?_, ih (fun h => hmark (h.trans (List.suffix_cons c cs).isInfix)) hrest⟩
    apply (leaves_many isBlank _).refuses
    rintro es ⟨bs, hes, hbs⟩
    obtain ⟨d, hd⟩ : ∃ d, (c :: cs).getLast? = some d := ⟨_, List.getLast?_cons⟩
    obtain ⟨hnone, hstar⟩ := hlast d hd
    -- the blanks end inside of the text, as its last character is none
    rw [← List.cons_append, List.append_eq_append_iff] at hes
    rcases hes with ⟨as, rfl, -⟩ | ⟨as, hcs, rfl⟩
    · have hblank := hbs d (List.mem_append_left _ (List.mem_of_getLast? hd))
      rw [hnone] at hblank
      cases hblank
    · have hopens : ∀ as', as ≠ '*' :: '/' :: as' := by
        rintro as' rfl
        exact hmark ⟨bs, as', by simp [hcs]⟩
      rw [hcs] at hd
      apply refuses_lit
      match as with
      | [] =>
        rw [List.append_nil] at hd
        have hblank := hbs d (List.mem_of_getLast? hd)
        rw [hnone] at hblank
        cases hblank
      | [a] =>
        rw [List.getLast?_concat, Option.some.injEq] at hd
        simp [differ, hd, Ne.symm hstar]
      | a :: b :: as =>
        by_cases ha : a = '*'
        · have hb : b ≠ '/' := by
            rintro rfl
            exact hopens as (by rw [ha])
          simp [differ, Ne.symm hb]
        · simp [differ, Ne.symm ha]

/-- The text of a comment is found behind the words of the comment. -/
theorem search?_placeholderComment {body : String} {c : Char} {cs : List Char}
    (hbody : body.toList = " unmapped widget: ".toList ++ c :: cs) (hfirst : isBlank c = false)
    (hmark : ¬ ['*', '/'] <:+: cs) (hlast : ∀ d ∈ cs.getLast?, isBlank d = false ∧ d ≠ '*') :
    ∃ m, placeholderComment.search? (commented body) = some m ∧
      m.get 1 = String.ofList (c :: cs) := by
  let rest := c :: (cs ++ ([' '] ++ "*/".toList)) ++ []
  have hbefore : Takes blanks [' '] ("unmapped widget:".toList ++ ([' '] ++ rest)) [] :=
    takes_blanks_space (by simp [isBlank])
  have hbehind : Takes blanks [' '] rest [] := takes_blanks_space (by simp [rest, hfirst])
  have hlead := ((takes_lit "/*" _).seq hbefore).seq (takes_lit "unmapped widget:" _)
  have hwords := hlead.seq hbehind
  have hend : Takes (blanks ++ lit "*/") ([' '] ++ "*/".toList) [] [] :=
    (takes_blanks_space (by simp [isBlank])).seq (takes_lit "*/" [])
  have hgroup := takes_few1_until (d := c) (passes_closing hmark hlast) hend 1
  have hall := (hwords.seq hgroup).assoc.assoc
  refine ⟨_, search?_eq_some ?_ (passes_nil _) hall, rfl⟩
  simp [toList_commented, hbody]

theorem ends_placeholderText (hname : isName name = true) (h : ∀ p ∈ props, Noted p) :
    ∃ c cs, (placeholderText name props).toList = c :: cs ∧ isBlank c = false ∧
      ∀ d ∈ cs.getLast?, isBlank d = false ∧ d ≠ '*' := by
  obtain ⟨c, cs, hs, hc, hcs⟩ := isName_iff.1 hname
  have hfirst : isBlank c = false := not_isBlank_of_isNameChar (isNameChar_of_isNameStart hc)
  rw [placeholderText_eq name h]
  split_ifs
  · refine ⟨c, cs, hs, hfirst, fun d hd => ?_⟩
    have hd := hcs d (List.mem_of_getLast? hd)
    refine ⟨not_isBlank_of_isNameChar hd, ?_⟩
    rintro rfl
    revert hd
    decide
  · refine ⟨c, cs ++ '(' :: (join ", " (props.map noted)).toList ++ [')'], by simp [hs], hfirst, ?_⟩
    rw [List.getLast?_concat]
    rintro d ⟨⟩
    decide

/-- The props that come back with a placeholder. -/
def regained (name : String) (props : Props) : Props :=
  if name = "const" ∨ name = "new" then [] else props

theorem phrase_noted {p : String × PropValue} (h : Noted p) :
    Phrase (noted p) (ReadsArg (propSpec p)) := by
  obtain ⟨v, hv, hexact⟩ := h.value
  have hvalue : Reads (ofProp p.2) fun e => e.toProp = p.2 := by
    rw [hv]
    refine (reads_ofValue v hexact).imp fun e he => ?_
    have he : constant? e = some v := he
    rw [Expr.toProp, he]
  exact readsArg_named hvalue (Route.isName_of_isIdentifier h.name)

theorem filterMap_of_meet {args : Args} (h : ArgsMeet (props.map propSpec) args) :
    args.filterMap (fun (n, e) => n.map fun n => (n, e.toProp)) = props := by
  induction props generalizing args with
  | nil =>
    cases h
    rfl
  | cons p props ih =>
    obtain ⟨⟨n, e⟩, args, ⟨hn, he⟩, hargs, rfl⟩ := List.forall₂_cons_left_iff.1 h
    have hn : n = some p.1 := hn
    have he : e.toProp = p.2 := he
    simp [hn, he, ih hargs]

/-- What stands in front of the bracket is the name, if the rest is read as a call. -/
theorem placeholderOf_of_bracket (hname : isName name = true) {rest : String}
    {s : Source} {e : Expr} (hread : Source.read (name ++ "(" ++ rest) = .ok s)
    (hexpr : s.all.expr = .ok e) :
    placeholderOf (name ++ "(" ++ rest) = .ok (name, match e with
      | .call _ _ _ args _ =>
        Assoc.ofPairs (args.filterMap fun (n, e) => n.map fun n => (n, e.toProp))
      | _ => []) := by
  have hbracket : '(' ∉ name.toList := not_mem_of_isName hname (by decide)
  have hcut : cutAt? (name ++ "(" ++ rest) "(" = some (name, rest) :=
    cutAt?_of_not_mem rfl hbracket rest
  have htrim : trim name = name := by
    rw [trim, trimChars_of_no_blank fun c hc =>
      not_isBlank_of_isNameChar (isNameChar_of_isName hname hc),
      String.ofList_toList]
  simp only [placeholderOf, hcut, htrim, hread, bind, Except.bind, hexpr]
  cases e <;> rfl

/-- The name and the props come back from the call. -/
theorem placeholderOf_placeholderText (hname : isName name = true)
    (hkeys : (Assoc.keys props).Nodup) (h : ∀ p ∈ props, Noted p) :
    placeholderOf (placeholderText name props) = .ok (name, regained name props) := by
  rw [placeholderText_eq name h]
  split_ifs with hempty
  · have hbracket : '(' ∉ name.toList := not_mem_of_isName hname (by decide)
    have hcut : cutAt? name "(" = none := cutAt?_eq_none rfl hbracket
    simp [placeholderOf, hcut, regained, List.isEmpty_iff.1 hempty]
  · have hlisting : Listing (join ", " (props.map noted)) ((props.map propSpec).map ReadsArg) := by
      apply listing_inline
      rw [List.map_map, List.forall₂_map_left_iff, List.forall₂_map_right_iff, List.forall₂_same]
      exact fun p hp => phrase_noted (h p hp)
    have htext : name ++ "(" ++ join ", " (props.map noted) ++ ")" =
        name ++ "(" ++ (join ", " (props.map noted) ++ ")") := String.append_assoc
    have hgap : isGap "" = true := by decide
    rw [htext]
    unfold regained
    split_ifs with hword
    · have hreads := reads_constructorWord hword hlisting hgap
      obtain ⟨s, e, hread, hexpr, r, rfl⟩ := hreads.source
      rw [String.append_empty, htext] at hread
      exact placeholderOf_of_bracket hname hread hexpr
    · rw [not_or] at hword
      have hreads := reads_call (isCallable_iff.2 ⟨hname, hword⟩) hlisting "" hgap
      obtain ⟨s, e, hread, hexpr, r, args, rfl, -, hargs, -⟩ := hreads.source
      rw [String.append_empty, htext] at hread
      rw [placeholderOf_of_bracket hname hread hexpr]
      simp only [filterMap_of_meet hargs, Assoc.ofPairs_of_nodup hkeys]

/-! ## The element -/

variable {table : Table} {declarations : List Member}

/-- An empty container with the comment of a placeholder is lowered to the placeholder. -/
theorem settles_lower_marker {r : Range} {comments : List String}
    (h : placeholder? comments = .ok (some (name, props))) (fuel : Nat) (path : String) :
    Settles (lower table declarations (fuel + 4) path (some (.call r "Container" "" [] comments)))
      [.element (.placeholder name props) []] := by
  have hwrap : Motion.ofWrappers (.call r "Container" "" [] comments) = .ok none := rfl
  have hslot : ∀ name, Settles (lowerSlot table declarations (fuel + 2) path (Expr.named? [] name))
      [] :=
    fun _ => settles_pure []
  have hcall : Settles (lowerCall table declarations (fuel + 3) path "Container" [] comments)
      [.element (.placeholder name props) []] := by
    rw [lowerCall]
    simp only [beq_self_eq_true, if_true]
    exact (settles_lift h).bind ((hslot "child").bind ((hslot "children").bind (settles_pure _)))
  rw [Reading.lower]
  simp only [show startsUpper "Container" = true by decide, Bool.not_true,
    Bool.false_eq_true, if_false]
  exact (settles_lift hwrap).bind hcall

/-- A placeholder without children is written as a container with a comment. -/
theorem run_placeholder (s : Setting) (path : String) (hname : isName name = true) (props : Props)
    (d : Draft) :
    ∃ d', (widgetNode s path (.element (.placeholder name props) [])).run.run d =
      (.ok (commentedCall "Container" (markerText name props)), d') := by
  have hne : name.isEmpty = false := by simpa using ne_empty_of_isName hname
  have hshown : State.nonEmpty? (some name) = some name := by simp [State.nonEmpty?, hne]
  have hentry : Validation.entryOf? s.environment.table (.placeholder name props) = none := rfl
  have htext : placeholderCall s name props [] =
      commentedCall "Container" (markerText name props) := by
    rw [← String.toList_inj, toList_commentedCall, toList_markerText]
    simp [placeholderCall]
  rw [← htext]
  simp only [widgetNode, widgetElement, widgetNodes, hentry]
  simp only [placeholderName, Element.placeholder, hshown]
  exact ⟨_, rfl⟩

/-! ## The round trip -/

theorem widgetSource_unterminated (hname : isName name = true) (h : ∀ p ∈ props, Noted p)
    (hopen : opensComment props = true) :
    widgetSource table (commentedCall "Container" (markerText name props)) =
      .error (.malformed "unterminated block comment" ⟨1, 11⟩) := by
  have hcontainer : isName "Container" = true := by decide
  have hread :=
    read_unterminated hcontainer ((opensComment_iff hname h).1 hopen) (not_closed hname h)
  simp only [widgetSource, hread, bind, Except.bind]
  rfl

theorem placeholder?_marker (hname : isName name = true) (hkeys : (Assoc.keys props).Nodup)
    (h : ∀ p ∈ props, Noted p) :
    placeholder? [commented (markerText name props)] = .ok (some (name, regained name props)) := by
  obtain ⟨c, cs, hsig, hfirst, hlast⟩ := ends_placeholderText hname h
  have hmark : ¬ ['*', '/'] <:+: cs := by
    intro hcs
    apply not_closed hname h
    rw [toList_markerText, hsig]
    have hsuffix :=
      (List.suffix_cons c cs).trans (List.suffix_append " unmapped widget: ".toList (c :: cs))
    exact hcs.trans hsuffix.isInfix
  have hbody := toList_markerText name props
  rw [hsig] at hbody
  obtain ⟨m, hsearch, hget⟩ := search?_placeholderComment hbody hfirst hmark hlast
  rw [← hsig, String.ofList_toList] at hget
  simp only [placeholder?, hsearch, hget, placeholderOf_placeholderText hname hkeys h]
  rfl

theorem widgetSource_marker (hname : isName name = true) (hkeys : (Assoc.keys props).Nodup)
    (h : ∀ p ∈ props, Noted p) (hopen : opensComment props = false) :
    widgetSource table (commentedCall "Container" (markerText name props)) =
      .ok { root := .element (.placeholder name (regained name props)) [] } := by
  have hmark : ¬ ['/', '*'] <:+: (markerText name props).toList := by
    rw [← opensComment_iff hname h, hopen]
    exact Bool.false_ne_true
  have hcontainer : isCallable "Container" = true := by decide
  obtain ⟨s, n, o, c, hread, htrees, hn, ho, hc⟩ :=
    read_commentedCall (isCallable_iff.1 hcontainer).1 hmark (not_closed hname h)
  have hexpr := expr_commented hcontainer hn ho hc
  rw [← htrees] at hexpr
  have hinvokes : Range.Invokes ⟨s.trees, none⟩ "Container" := ⟨n, o, [], c, htrees, hn, ho⟩
  exact widgetSource_of_call hread hexpr hinvokes (by decide)
    (settles_lower_marker (placeholder?_marker hname hkeys h) _ "root")

/-- A placeholder without children comes back from its source with its name and its props, unless
the source of a prop opens a comment: then the source is refused at the comment. -/
theorem widgetSource_placeholder (table : Table) (s : Setting) (path : String) (d : Draft)
    (hname : isName name = true) (hkeys : (Assoc.keys props).Nodup) (h : ∀ p ∈ props, Noted p) :
    ∃ text d', (widgetNode s path (.element (.placeholder name props) [])).run.run d =
      (.ok text, d') ∧
      widgetSource table text =
        if opensComment props then .error (.malformed "unterminated block comment" ⟨1, 11⟩)
        else .ok { root := .element (.placeholder name (regained name props)) [] } := by
  obtain ⟨d', hrun⟩ := run_placeholder s path hname props d
  refine ⟨_, d', hrun, ?_⟩
  cases hopen : opensComment props with
  | true => exact widgetSource_unterminated hname h hopen
  | false => exact widgetSource_marker hname hkeys h hopen

/-- The props of a chart: a text with quotes, brackets and halves of marks, and nested data. -/
def chartProps : Props :=
  [("title", .literal (.str "it's $5 * (a/b), \n")),
    ("points", .literal (.list [.int (-3), .map [("x: 1", .null), ("'", .bool true)], .str ""]))]

theorem noted_chartProps : ∀ p ∈ chartProps, Noted p := by
  refine List.forall_mem_cons.2 ⟨?_, List.forall_mem_singleton.2 ?_⟩
  · exact ⟨by decide, ⟨_, rfl, trivial⟩, by decide⟩
  · exact ⟨by decide,
      ⟨_, rfl, trivial, ⟨by decide, trivial, trivial, trivial⟩, trivial, trivial⟩, by decide⟩

/-- The round trip of a chart. -/
theorem widgetSource_placeholder_chart :
    let s : Setting := { environment := {}, framework := .widget, file := "app.dart" }
    isName "Chart" = true ∧ (Assoc.keys chartProps).Nodup ∧ (∀ p ∈ chartProps, Noted p) ∧
      ∃ text d', (widgetNode s "root" (.element (.placeholder "Chart" chartProps) [])).run.run {} =
          (.ok text, d') ∧
        widgetSource Bundled.table text =
          .ok { root := .element (.placeholder "Chart" chartProps) [] } := by
  have hname : isName "Chart" = true := by decide
  have hkeys : (Assoc.keys chartProps).Nodup := by decide
  have hopen : opensComment chartProps = false := by decide
  have hround := widgetSource_placeholder Bundled.table
    { environment := {}, framework := .widget, file := "app.dart" } "root"
      {} hname hkeys noted_chartProps
  rw [hopen] at hround
  exact ⟨hname, hkeys, noted_chartProps, hround⟩

/-- A pattern that matches all files of a folder opens a comment, and its placeholder is not
read. -/
theorem widgetSource_placeholder_glob :
    let s : Setting := { environment := {}, framework := .widget, file := "app.dart" }
    let props : Props := [("pattern", .literal (.str "/*"))]
    isName "Glob" = true ∧ (Assoc.keys props).Nodup ∧ (∀ p ∈ props, Noted p) ∧
      ∃ text d', (widgetNode s "root" (.element (.placeholder "Glob" props) [])).run.run {} =
        (.ok text, d') ∧
        text = "Container(/* unmapped widget: Glob(pattern: '/*') */)" ∧
        widgetSource Bundled.table text =
          .error (.malformed "unterminated block comment" ⟨1, 11⟩) := by
  intro s props
  have hname : isName "Glob" = true := by decide
  have hnoted : ∀ p ∈ props, Noted p :=
    List.forall_mem_singleton.2 ⟨by decide, ⟨_, rfl, trivial⟩, by decide⟩
  obtain ⟨d', hrun⟩ := run_placeholder s "root" hname props {}
  refine ⟨hname, by decide, hnoted, _, d', hrun, ?_,
    widgetSource_unterminated hname hnoted (by decide)⟩
  rw [← String.toList_inj]
  decide

end WidgetBridge.RoundTrip
