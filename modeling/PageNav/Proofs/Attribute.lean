import PageNav.Proofs.Brackets
import PageNav.Proofs.Routes

/-!
# What the attribute may hold

The attribute stands in every test as it is. A test of a plain name is one token with all quotes
and brackets closed exactly if the attribute alone is so between brackets, and a page with plain keys
has such tests for each hop or none. That settings pass their check does not ensure it.
-/

namespace PageNav

open Text PageNav.Path

/-- A text that is one token and closes all that it opens. -/
structure Unbroken (text : List Char) : Prop where
  single : tokensOf text = [text]
  closed : Closed text
  nested : Nested text

instance : DecidablePred Unbroken := fun text =>
  decidable_of_iff (tokensOf text = [text] ∧ Closed text ∧ Nested text)
    ⟨fun ⟨single, closed, nested⟩ => ⟨single, closed, nested⟩,
      fun h => ⟨h.single, h.closed, h.nested⟩⟩

/-! ## One token -/

theorem tokensOf_eq_singleton_iff {text : List Char} (filled : text ≠ []) :
    tokensOf text = [text] ↔ Uncut .outside text [] := by
  constructor
  · intro h
    exact uncut_of_mem_tokensOf (h ▸ List.mem_singleton_self text) []
  · intro h
    have hone := tokensOf_uncut_append filled h
    rwa [List.append_nil, split, List.append_nil] at hone

theorem Bracket.closesFirst_append_congr (k : Bracket) {q : Quote} (a : List Char)
    {b c : List Char} (same : k.closesFirst (q.after a) b = k.closesFirst (q.after a) c) :
    k.closesFirst q (a ++ b) = k.closesFirst q (a ++ c) := by
  induction a generalizing q with
  | nil => exact same
  | cons d a ih =>
    have hrest := ih (q := q.next d) same
    by_cases hq : q = .outside
    · subst hq
      rw [List.cons_append, List.cons_append, closesFirst, closesFirst, hrest]
    · rw [List.cons_append, List.cons_append, closesFirst_inside hq, closesFirst_inside hq, hrest]

theorem uncut_congr {q : Quote} {a b c : List Char} (closed : q.after a = .outside)
    (same : ∀ k : Bracket, k.closesFirst .outside b = k.closesFirst .outside c)
    (uncut : Uncut q a b) : Uncut q a c := by
  induction a generalizing q with
  | nil => trivial
  | cons d a ih =>
    refine ⟨fun hcut => uncut.1 ?_, ih closed uncut.2⟩
    obtain ⟨rfl, blank, hgroup⟩ := separates_iff.mp hcut
    rw [Quote.after_cons, next_of_isBlank blank] at closed
    have hsame : inGroup (a ++ b) = inGroup (a ++ c) :=
      inGroup_congr fun k => k.closesFirst_append_congr a (by rw [closed]; exact same k)
    exact separates_iff.mpr ⟨rfl, blank, hsame.trans hgroup⟩

/-! ## Endings -/

/-- A text that may follow another one: it adds no cut and closes no quote of the other. -/
structure Ending (text : List Char) : Prop extends Whole text where
  inside : ∀ q ≠ Quote.outside, q.after text ≠ .outside

theorem ending_plain {text : List Char} (plain : ∀ c ∈ text, isPlainChar c = true) :
    Ending text := by
  refine ⟨whole_plain plain, fun q hq => after_unescaped_inside hq fun c hc => ?_⟩
  obtain ⟨-, hquote, hslash, -⟩ := not_special_of_plain (plain c hc)
  exact ⟨hquote, hslash⟩

/-- Endings with the same brackets are as good as each other. -/
theorem Unbroken.other_ending {a b c : List Char} (h : Unbroken (a ++ b)) (filled : a ≠ [])
    (hb : Ending b) (hc : Ending c)
    (same : ∀ k : Bracket, k.closesFirst .outside b = k.closesFirst .outside c)
    (opens : ∀ opened, Bracket.opened? .outside opened b = Bracket.opened? .outside opened c) :
    Unbroken (a ++ c) := by
  obtain ⟨single, closed, nested⟩ := h
  -- a quote that `a` leaves open would not be closed by `b`
  have ha : Closed a := by
    by_contra hopen
    rw [Closed, Quote.after_append] at closed
    exact hb.inside _ hopen closed
  have hfilled : ∀ d : List Char, a ++ d ≠ [] := fun d h => filled (List.append_eq_nil_iff.mp h).1
  rw [tokensOf_eq_singleton_iff (hfilled b), uncut_append, List.append_nil] at single
  refine ⟨?_, closed_append ha hc.closed, ?_⟩
  · rw [tokensOf_eq_singleton_iff (hfilled c), uncut_append, List.append_nil, ha]
    exact ⟨uncut_congr ha same single.1, uncut_solid hc.solid []⟩
  · rw [Nested, Bracket.opened?_append, ha] at nested ⊢
    rwa [← funext opens]

theorem unbroken_ending_iff {a b c : List Char} (filled : a ≠ []) (hb : Ending b) (hc : Ending c)
    (same : ∀ k : Bracket, k.closesFirst .outside b = k.closesFirst .outside c)
    (opens : ∀ opened, Bracket.opened? .outside opened b = Bracket.opened? .outside opened c) :
    Unbroken (a ++ b) ↔ Unbroken (a ++ c) :=
  ⟨fun h => h.other_ending filled hb hc same opens, fun h => h.other_ending filled hc hb
    (fun k => (same k).symm) fun opened => (opens opened).symm⟩

theorem unbroken_plain {text : List Char} (plain : ∀ c ∈ text, isPlainChar c = true)
    (filled : text ≠ []) : Unbroken text :=
  ⟨tokensOf_solid (whole_plain plain).solid filled, (whole_plain plain).closed,
    (fair_plain plain).nested⟩

theorem unbroken_append_plain {text rest : List Char} (filled : text ≠ [])
    (plain : ∀ c ∈ rest, isPlainChar c = true) : Unbroken (text ++ rest) ↔ Unbroken text := by
  have hnone : Ending [] := ending_plain fun c hc => absurd hc List.not_mem_nil
  have same (k : Bracket) : k.closesFirst .outside rest = k.closesFirst .outside [] := by
    have h := closesFirst_plain plain k []
    rwa [List.append_nil] at h
  have hiff := unbroken_ending_iff filled (ending_plain plain) hnone same (fair_plain plain).even
  rwa [List.append_nil] at hiff

namespace Selector

theorem ending_bracket : Ending [']'] := by
  refine ⟨⟨solid_of_no_blank rfl _, rfl⟩, fun q hq => ?_⟩
  cases q with
  | outside => exact absurd rfl hq
  | inside => decide
  | escaped => decide

theorem plain_equals : ∀ c ∈ ['='], isPlainChar c = true :=
  List.forall_mem_singleton.mpr (by decide)

section
variable {name : List Char} (plain : ∀ c ∈ name, isPlainChar c = true)
include plain

theorem ending_value : Ending (['='] ++ (quoted name ++ [']'])) := by
  have hwhole := (whole_plain plain_equals).append
    ((whole_quoted name).append ending_bracket.toWhole)
  refine ⟨hwhole, fun q hq => ?_⟩
  have hnext : q.next '=' = .inside := by
    cases q with
    | outside => exact absurd rfl hq
    | inside => rfl
    | escaped => rfl
  -- the quotes of the value change places: the first one closes, the last one opens again
  have hname : Quote.inside.after (quoted name) = .inside := by
    change Quote.outside.after (escapeChars name ++ ['\'']) = .inside
    rw [escapeChars_plain plain, Quote.after_append, after_plain plain]
    rfl
  rw [List.singleton_append, Quote.after_cons, hnext, Quote.after_append, hname]
  decide

theorem unbroken_testOf_iff (attr : List Char) :
    Unbroken (testOf attr name) ↔ Unbroken (Bracket.square.around attr) := by
  have htest : testOf attr name = ('[' :: attr) ++ (['='] ++ (quoted name ++ [']'])) := by
    simp [testOf, quoted, escapeChars_plain plain]
  have filled : '[' :: attr ≠ [] := List.cons_ne_nil _ _
  rw [htest]
  have same (k : Bracket) : k.closesFirst .outside (['='] ++ (quoted name ++ [']'])) =
      k.closesFirst .outside [']'] := by
    rw [closesFirst_plain plain_equals, closesFirst_quoted]
  have opens (opened : List Bracket) :
      Bracket.opened? .outside opened (['='] ++ (quoted name ++ [']'])) =
        Bracket.opened? .outside opened [']'] := by
    have hequals := fair_plain plain_equals
    rw [Bracket.opened?_append, hequals.even, hequals.closed, Option.bind_some,
      Bracket.opened?_append, even_quoted, (whole_quoted name).closed]
    rfl
  exact unbroken_ending_iff filled (ending_value plain) ending_bracket same opens

end

theorem unbroken_ofToken_iff (attr : List Char) {key : List Char} (filled : key ≠ [])
    (plain : ∀ c ∈ key, isPlainChar c = true) :
    Unbroken (ofToken attr key) ↔ nameOf key = [] ∨ Unbroken (Bracket.square.around attr) := by
  have hwhole := nameOf_append_restOf key
  have hname : ∀ c ∈ nameOf key, isPlainChar c = true := fun c hc =>
    plain c (hwhole ▸ List.mem_append_left _ hc)
  have hrest : ∀ c ∈ restOf key, isPlainChar c = true := fun c hc =>
    plain c (hwhole ▸ List.mem_append_right _ hc)
  have htest : testOf attr (nameOf key) ≠ [] := List.cons_ne_nil _ _
  rw [ofToken_eq]
  split
  · next hnone => exact iff_of_true (unbroken_plain plain filled) (.inl hnone)
  · next hsome =>
    rw [unbroken_append_plain htest hrest, unbroken_testOf_iff hname attr]
    exact (or_iff_right hsome).symm

end Selector

/-! ## Several in a row -/

theorem Nested.not_inGroup {text : List Char} (nested : Nested text) : inGroup text = false := by
  rw [← Bool.not_eq_true, inGroup_iff_shelters nested]
  rintro ⟨k, inner, outer, between, hnone, -⟩
  exact absurd hnone (by simp)

theorem wellCut_unbroken {ts : List (List Char)} (h : ∀ t ∈ ts, Unbroken t) : WellCut ts := by
  refine ⟨fun t ht => (h t ht).single, ?_⟩
  apply List.Pairwise.isChain
  exact List.pairwise_of_forall_mem_list fun t ht u hu =>
    ⟨(h t ht).closed, (h u hu).nested.not_inGroup⟩

theorem nested_join {ts : List (List Char)} (h : ∀ t ∈ ts, Unbroken t) : Nested (join ts) := by
  rw [Nested, opened?_join fun t ht => (h t ht).closed]
  induction ts with
  | nil => rfl
  | cons t ts ih =>
    obtain ⟨ht, hts⟩ := List.forall_mem_cons.mp h
    rw [openedAfter_cons, even_iff_nested.mpr ht.nested, Option.bind_some, ih hts]

theorem unbroken_intercalate {parts : List String} (h : ∀ part ∈ parts, Unbroken part.toList) :
    tokens (" ".intercalate parts) = parts ∧ Closed (" ".intercalate parts).toList ∧
      Nested (" ".intercalate parts).toList := by
  have hparts : ∀ t ∈ parts.map String.toList, Unbroken t := List.forall_mem_map.mpr h
  have hchars : (" ".intercalate parts).toList = join (parts.map String.toList) :=
    String.toList_intercalate
  rw [tokens, hchars, tokensOf_join (wellCut_unbroken hparts)]
  exact ⟨by simp, closed_join fun t ht => (hparts t ht).closed, nested_join hparts⟩

/-! ## Places of plain pages -/

theorem Layout.PlainKeys.level {above : List String} {l level : Layout} (h : l.PlainKeys)
    (hlevel : l.level? above = some level) : level.PlainKeys := by
  induction above generalizing l with
  | nil => exact Option.some.inj hlevel ▸ h
  | cons key above ih =>
    rw [level?] at hlevel
    split at hlevel
    · next hfind => exact ih (h.child hfind) hlevel
    · exact absurd hlevel (by simp)

theorem Schema.PlainKeys.key {schema level : Schema} (h : schema.PlainKeys) {above : List String}
    (hlevel : schema.level? above = some level) {key : String} (mem : key ∈ level.keys) :
    Plain key := by
  rw [← Layout.toSchema_ofSchema .empty schema, Layout.level?_toSchema] at hlevel
  obtain ⟨l, hl, rfl⟩ := Option.map_eq_some_iff.mp hlevel
  rw [Layout.keys_toSchema] at mem
  exact ((Layout.plainKeys_ofSchema .empty h).level hl).key mem

open Selector

theorem Tour.selector_parts {schema : Schema} {settings : Settings} {n : Navigator} {log : Log}
    {names : List String} {place : Place} (plainKeys : schema.PlainKeys)
    (tour : Tour schema settings n log) (few : n.atlas.symbols.size ≤ UInt32.size)
    (found : (names.map .child, some place) ∈ log) :
    ∃ keys, (Spot.ofSchema schema settings).steps? settings.testAttribute (names.map .child) =
        some keys ∧ (∀ key ∈ keys, Plain key) ∧
      place.selector settings.testAttribute =
        " ".intercalate (keys.map (ofPath settings.testAttribute)) := by
  have hfilled : ∀ above level, schema.level? above = some level → ∀ key ∈ level.keys, key ≠ "" :=
    fun above level hlevel key hkey => (plainKeys.key hlevel hkey).1
  obtain ⟨keys, hkeys, hjoin, hlevels⟩ := tour.keys_of_place hfilled few found
  have hplain : ∀ key ∈ keys, Plain key := by
    intro key hkey
    obtain ⟨above, level, hlevel, hmem⟩ := hlevels key hkey
    exact plainKeys.key hlevel hmem
  have hsteps : ∀ t ∈ keys.map String.toList, IsStep t :=
    List.forall_mem_map.mpr fun key hkey => (hplain key hkey).isStep
  refine ⟨keys, hkeys, hplain, ?_⟩
  rw [Spot.selector, ofPath, hjoin, tokensOf_join (wellCut_of_steps hsteps), ofList_join,
    List.map_map, List.map_map]
  congr 1
  exact List.map_congr_left fun key hkey => (ofPath_of_isStep _ (hplain key hkey).isStep).symm

/-- A test of a plain name is one token and closes all that it opens exactly if the attribute does
between brackets. So does the selector of every place of a page with plain keys, test by test,
unless no hop to the place adds a test. -/
theorem unbroken_iff_attribute (settings : Settings) :
    (∀ name, Plain name →
      (Unbroken (ofName settings.testAttribute name).toList ↔
        Unbroken (Bracket.square.around settings.testAttribute.toList))) ∧
    ∀ {schema : Schema} {n : Navigator} {log : Log} {names : List String} {place : Place},
      schema.PlainKeys → Tour schema settings n log → n.atlas.symbols.size ≤ UInt32.size →
      (names.map .child, some place) ∈ log →
      ∃ keys, (Spot.ofSchema schema settings).steps? settings.testAttribute (names.map .child) =
          some keys ∧
        let parts := keys.map (ofPath settings.testAttribute)
        let selector := place.selector settings.testAttribute
        selector = " ".intercalate parts ∧
        ((tokens selector = parts ∧ Closed selector.toList ∧ Nested selector.toList ∧
            ∀ part ∈ parts, Unbroken part.toList) ↔
          Unbroken (Bracket.square.around settings.testAttribute.toList) ∨
            ∀ key ∈ keys, nameOf key.toList = []) := by
  refine ⟨fun name plain => ?_, ?_⟩
  · rw [ofName, String.toList_ofList]
    exact unbroken_testOf_iff plain.2 _
  · intro schema n log names place plainKeys tour few found
    obtain ⟨keys, hkeys, hplain, hselector⟩ := tour.selector_parts plainKeys few found
    have hpart : ∀ key ∈ keys, Unbroken (ofPath settings.testAttribute key).toList ↔
        nameOf key.toList = [] ∨
          Unbroken (Bracket.square.around settings.testAttribute.toList) := by
      intro key hkey
      rw [ofPath_of_isStep _ (hplain key hkey).isStep, String.toList_ofList]
      exact unbroken_ofToken_iff _ (hplain key hkey).isStep.filled (hplain key hkey).2
    refine ⟨keys, hkeys, hselector, ?_, fun hattr => ?_⟩
    · rintro ⟨-, -, -, hall⟩
      by_cases hattr : Unbroken (Bracket.square.around settings.testAttribute.toList)
      · exact .inl hattr
      · refine .inr fun key hkey => ?_
        exact ((hpart key hkey).mp (hall _ (List.mem_map_of_mem hkey))).resolve_right hattr
    · have hall : ∀ part ∈ keys.map (ofPath settings.testAttribute), Unbroken part.toList := by
        refine List.forall_mem_map.mpr fun key hkey => (hpart key hkey).mpr ?_
        exact hattr.symm.imp_left fun hnone => hnone key hkey
      obtain ⟨htokens, hclosed, hnested⟩ := unbroken_intercalate hall
      rw [← hselector] at htokens hclosed hnested
      exact ⟨htokens, hclosed, hnested, hall⟩

/-- An attribute with brackets and a blank of its own, which are closed. -/
theorem bracketed_attribute_unbroken :
    let settings : Settings := { testAttribute := "data[a b]" }
    let names := ["todoRows", "todo_row", "label"]
    let parts := ["[data[a b]='todo_rows']", "[data[a b]='todo_row']", "[data[a b]='label']"]
    ∃ n log place, todoPage.PlainKeys ∧ Tour todoPage settings n log ∧
      n.atlas.symbols.size ≤ UInt32.size ∧ (names.map .child, some place) ∈ log ∧
      Unbroken (ofName settings.testAttribute "label").toList ∧
      tokens (place.selector settings.testAttribute) = parts ∧
      Closed (place.selector settings.testAttribute).toList ∧
      Nested (place.selector settings.testAttribute).toList := by
  intro settings names parts
  have hplace : (Spot.ofSchema todoPage settings).follow? settings.testAttribute
      (names.map .child) = some ⟨"todo_rows todo_row label", none⟩ := by decide
  obtain ⟨n, log, place, tour, found, -, hsize⟩ := Tour.reach hplace (by decide)
  have few : n.atlas.symbols.size ≤ UInt32.size := Nat.le_trans hsize (by decide)
  have plainKeys : todoPage.PlainKeys :=
    ⟨by decide, ⟨by decide, ⟨by decide, trivial⟩, trivial⟩, trivial⟩
  have hattr : Unbroken (Bracket.square.around settings.testAttribute.toList) := by decide
  obtain ⟨hname, hselector⟩ := unbroken_iff_attribute settings
  obtain ⟨keys, hkeys, -, hparts⟩ := hselector plainKeys tour few found
  obtain ⟨htokens, hclosed, hnested, -⟩ := hparts.mpr (.inl hattr)
  have hgiven : (Spot.ofSchema todoPage settings).steps? settings.testAttribute
      (names.map .child) = some ["todo_rows", "todo_row", "label"] := by decide
  obtain rfl := Option.some.inj (hgiven.symm.trans hkeys)
  refine ⟨n, log, place, plainKeys, tour, few, found, (hname "label" (by decide)).mpr hattr, ?_,
    hclosed, hnested⟩
  rw [htokens]
  decide

/-- Settings pass their check with a quote for an attribute, and their tests leave it open. -/
theorem quote_attribute_breaks :
    let settings : Settings := { testAttribute := "'" }
    settings.check = .ok () ∧ Plain "a" ∧ ofName settings.testAttribute "a" = "['='a']" ∧
      ¬ Closed (ofName settings.testAttribute "a").toList ∧
      ¬ Unbroken (ofName settings.testAttribute "a").toList :=
  ⟨rfl, by decide, by decide, by decide, by decide⟩

end PageNav
