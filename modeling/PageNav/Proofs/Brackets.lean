import PageNav.Proofs.Grouping
import PageNav.Proofs.Recompiling

/-!
# Brackets of compiled paths

A name that becomes a test takes its brackets into quotes, where they count no more. So the brackets
of a selector stand inside each other exactly if those of the path do without these names.
-/

namespace PageNav

open Text PageNav.Path

instance : DecidablePred Closed := fun _ => inferInstanceAs (Decidable (_ = _))

instance : DecidablePred Nested := fun _ => inferInstanceAs (Decidable (_ = _))

/-! ## Brackets that are open already -/

namespace Bracket

/-- Brackets that were opened before change nothing, if none of them is closed. -/
theorem step?_frame {opened next : List Bracket} {c : Char} (h : step? opened c = some next)
    (before : List Bracket) : step? (opened ++ before) c = some (next ++ before) := by
  rcases step?_cases h with ⟨k, rfl, rfl⟩ | ⟨k, rfl, rfl⟩ | ⟨hother, rfl⟩
  · exact step?_opening _ k
  · exact step?_closing_eq_some.mpr rfl
  · exact step?_other _ hother

theorem opened?_frame {q : Quote} {opened left : List Bracket} {text : List Char}
    (h : opened? q opened text = some left) (before : List Bracket) :
    opened? q (opened ++ before) text = some (left ++ before) := by
  induction text generalizing q opened with
  | nil => exact congrArg (fun l => some (l ++ before)) (Option.some.inj h)
  | cons c cs ih =>
    by_cases hq : q = .outside
    · subst hq
      obtain ⟨next, hstep, hrest⟩ := Option.bind_eq_some_iff.mp h
      rw [opened?, step?_frame hstep, Option.bind_some]
      exact ih hrest
    · rw [opened?_inside hq] at h ⊢
      exact ih h

end Bracket

theorem even_iff_nested {text : List Char} : Even text ↔ Nested text :=
  ⟨fun even => even [], fun nested => Bracket.opened?_frame nested⟩

/-! ## Brackets token by token -/

def openedAfter (tokens : List (List Char)) (opened : List Bracket) : Option (List Bracket) :=
  tokens.foldlM (Bracket.opened? .outside) opened

theorem openedAfter_cons (t : List Char) (ts : List (List Char)) (opened : List Bracket) :
    openedAfter (t :: ts) opened = (Bracket.opened? .outside opened t).bind (openedAfter ts) :=
  rfl

theorem closed_join {ts : List (List Char)} (closed : ∀ t ∈ ts, Closed t) : Closed (join ts) := by
  induction ts with
  | nil => rfl
  | cons t ts ih =>
    obtain ⟨ht, hts⟩ := List.forall_mem_cons.mp closed
    cases ts with
    | nil => simpa [join] using ht
    | cons u ts =>
      rw [join_cons_cons]
      exact closed_append ht (closed_append (a := [' ']) rfl (ih hts))

theorem opened?_join {ts : List (List Char)} (closed : ∀ t ∈ ts, Closed t)
    (opened : List Bracket) : Bracket.opened? .outside opened (join ts) = openedAfter ts opened := by
  induction ts generalizing opened with
  | nil => rfl
  | cons t ts ih =>
    obtain ⟨ht, hts⟩ := List.forall_mem_cons.mp closed
    rw [openedAfter_cons]
    cases ts with
    | nil =>
      rw [join, List.intercalate_singleton]
      exact (Option.bind_fun_some _).symm
    | cons u ts =>
      rw [join_cons_cons, Bracket.opened?_append, ht]
      congr 1
      funext next
      have hspace : ∀ c ∈ [' '], isBlank c = true := List.forall_mem_singleton.mpr (by decide)
      exact (opened?_blanks hspace next _).trans (ih hts next)

theorem after_unescaped_inside {q : Quote} (hq : q ≠ .outside) {w : List Char}
    (h : Unescaped w) : q.after w ≠ .outside := by
  induction w generalizing q with
  | nil => exact hq
  | cons c w ih =>
    obtain ⟨hc, hw⟩ := List.forall_mem_cons.mp h
    have hnext : q.next c = .inside := by
      cases q with
      | outside => exact absurd rfl hq
      | inside => rw [Quote.next, if_neg hc.2, if_neg hc.1]
      | escaped => rfl
    rw [Quote.after_cons, hnext]
    exact ih (by decide) hw

theorem closed_of_append_unescaped {t w : List Char} (h : Unescaped w) (closed : Closed (t ++ w)) :
    Closed t := by
  by_contra hopen
  rw [Closed, Quote.after_append] at closed
  exact after_unescaped_inside hopen h closed

theorem unescaped_blanks {w : List Char} (blank : ∀ c ∈ w, isBlank c = true) : Unescaped w := by
  intro c hc
  refine ⟨ne_quote_of_isBlank (blank c hc), ?_⟩
  rintro rfl
  exact absurd (blank _ hc) (by decide)

/-- The tokens of a closed text are closed, and they open and close what the text does. -/
theorem Path.Laid.openedAfter_eq {ts : List (List Char)} {text : List Char} (h : Laid ts text)
    (apart : ts.IsChain Apart) (closed : Closed text) :
    (∀ t ∈ ts, Closed t) ∧
      ∀ opened, Bracket.opened? .outside opened text = openedAfter ts opened := by
  induction h with
  | blank blank =>
    refine ⟨fun t ht => absurd ht List.not_mem_nil, fun opened => ?_⟩
    have hnone := opened?_blanks blank opened []
    rwa [List.append_nil] at hnone
  | @token w t rest ts blank _ _ later ih =>
    have hclosed : Closed (t ++ rest) := by
      rwa [Closed, Quote.after_append, (unescaped_blanks blank).closed] at closed
    have ht : Closed t := by
      -- a token is closed where a blank cuts it off, and the last one because the text is
      cases later with
      | blank hrest => exact closed_of_append_unescaped (unescaped_blanks hrest) hclosed
      | token _ _ _ _ => exact (List.isChain_cons_cons.mp apart).1.1
    have hrest : Closed rest := by
      rwa [Closed, Quote.after_append, ht] at hclosed
    obtain ⟨hts, hopened⟩ := ih apart.tail hrest
    refine ⟨List.forall_mem_cons.mpr ⟨ht, hts⟩, fun opened => ?_⟩
    rw [opened?_blanks blank, Bracket.opened?_append, ht, openedAfter_cons]
    congr 1
    exact funext hopened

/-! ## Names that become tests -/

namespace Selector

/-- The name in a token that becomes a test, which is empty if there is none. -/
def nameOf (token : List Char) : List Char :=
  if token.head?.any isLead then [] else token.takeWhile (!endsName ·)

/-- What is left of a token without that name. -/
def restOf (token : List Char) : List Char :=
  if token.head?.any isLead then token else token.dropWhile (!endsName ·)

theorem nameOf_append_restOf (token : List Char) : nameOf token ++ restOf token = token := by
  unfold nameOf restOf
  split
  · rfl
  · exact List.takeWhile_append_dropWhile

theorem ofToken_eq (attr token : List Char) :
    ofToken attr token =
      if nameOf token = [] then token else testOf attr (nameOf token) ++ restOf token := by
  unfold ofToken nameOf restOf
  by_cases hlead : token.head?.any isLead = true
  · simp [hlead]
  · simp [hlead, List.isEmpty_iff]

/-- A name that closes its quotes, and that stays a quoted text if it is put between quotes. -/
structure Enclosable (name : List Char) : Prop where
  closed : Closed name
  inside : Quote.inside.after name = .inside
  nested : Bracket.opened? .inside [] name = some []

instance : DecidablePred Enclosable := fun name =>
  decidable_of_iff (Closed name ∧ Quote.inside.after name = .inside ∧
      Bracket.opened? .inside [] name = some [])
    ⟨fun ⟨closed, inside, nested⟩ => ⟨closed, inside, nested⟩,
      fun h => ⟨h.closed, h.inside, h.nested⟩⟩

/-- A name without quotes stays between quotes unless a backslash takes the last one away. -/
theorem enclosable_of_no_quote {name : List Char} (h : '\'' ∉ name)
    (inside : Quote.inside.after name = .inside) : Enclosable name := by
  refine ⟨closed_of_no_quote h, inside, ?_⟩
  -- from inside quotes no character of the name leads outside
  have hmute : ∀ q ≠ Quote.outside, Bracket.opened? q [] name = some [] := by
    clear inside
    induction name with
    | nil => exact fun _ _ => rfl
    | cons c cs ih =>
      rw [List.mem_cons, not_or] at h
      intro q hq
      rw [Bracket.opened?_inside hq]
      refine ih h.2 _ ?_
      cases q with
      | outside => exact absurd rfl hq
      | inside =>
        rw [Quote.next, if_neg (Ne.symm h.1)]
        split <;> decide
      | escaped => exact fun h => absurd h (by simp [Quote.next])
  exact hmute .inside (by decide)

section
variable {attr : List Char} (plain : ∀ c ∈ attr, isPlainChar c = true)
include plain

theorem testOf_balanced {name : List Char} (enclosable : Enclosable name) :
    Closed (testOf attr name) ∧ Even (testOf attr name) := by
  have hname : Even ('\'' :: (name ++ ['\''])) := by
    intro opened
    -- the name may close its quotes and have brackets there, as long as it closes these too
    have hframe : Bracket.opened? .inside opened name = some opened :=
      Bracket.opened?_frame enclosable.nested opened
    change Bracket.opened? .inside opened (name ++ ['\'']) = some opened
    rw [Bracket.opened?_append, hframe, enclosable.inside]
    rfl
  have hquoted : Closed ('\'' :: (name ++ ['\''])) := by
    change Quote.inside.after (name ++ ['\'']) = .outside
    rw [Quote.after_append, enclosable.inside]
    rfl
  have hequals : ∀ c ∈ attr ++ ['='], isPlainChar c = true :=
    List.forall_mem_append.mpr ⟨plain, List.forall_mem_singleton.mpr (by decide)⟩
  have hattr := fair_plain hequals
  have htext : testOf attr name =
      Bracket.square.around ((attr ++ ['=']) ++ '\'' :: (name ++ ['\''])) := by
    simp [testOf, Bracket.around, Bracket.opening, Bracket.closing]
  have hclosed := closed_append hattr.closed hquoted
  rw [htext]
  exact ⟨closed_around hclosed .square,
    even_around hclosed (hattr.even.append hattr.closed hname) .square⟩

theorem ofToken_balanced {token : List Char} (closed : Closed token)
    (enclosable : Enclosable (nameOf token)) :
    Closed (restOf token) ∧ Closed (ofToken attr token) ∧
      ∀ opened, Bracket.opened? .outside opened (ofToken attr token) =
        Bracket.opened? .outside opened (restOf token) := by
  have hrest : Closed (restOf token) := by
    have hwhole := nameOf_append_restOf token
    rw [← hwhole, Closed, Quote.after_append, enclosable.closed] at closed
    exact closed
  refine ⟨hrest, ?_⟩
  rw [ofToken_eq]
  split
  · next hname =>
    have hwhole := nameOf_append_restOf token
    rw [hname, List.nil_append] at hwhole
    rw [hwhole]
    exact ⟨closed, fun _ => rfl⟩
  · obtain ⟨htest, heven⟩ := testOf_balanced plain enclosable
    refine ⟨closed_append htest hrest, fun opened => ?_⟩
    rw [Bracket.opened?_append, heven, htest]
    rfl

end

end Selector

theorem openedAfter_map_congr {f g : List Char → List Char} {ts : List (List Char)}
    (h : ∀ t ∈ ts, ∀ opened, Bracket.opened? .outside opened (f t) =
      Bracket.opened? .outside opened (g t)) (opened : List Bracket) :
    openedAfter (ts.map f) opened = openedAfter (ts.map g) opened := by
  induction ts generalizing opened with
  | nil => rfl
  | cons t ts ih =>
    obtain ⟨ht, hts⟩ := List.forall_mem_cons.mp h
    rw [List.map_cons, List.map_cons, openedAfter_cons, openedAfter_cons, ht]
    congr 1
    exact funext (ih hts)

open Selector

/-- The selector of a closed path is closed. Its brackets stand inside each other exactly if they do
in the path without the names that become tests, and so wherever those of each such name do. -/
theorem ofPath_balanced (attr path : String) (plain : ∀ c ∈ attr.toList, isPlainChar c = true)
    (closed : Closed path.toList) (nested : Nested path.toList)
    (enclosable : ∀ token ∈ tokensOf path.toList, Enclosable (nameOf token)) :
    Closed (ofPath attr path).toList ∧
      (Nested (ofPath attr path).toList ↔ Nested (join ((tokensOf path.toList).map restOf))) ∧
      ((∀ token ∈ tokensOf path.toList, Nested (nameOf token)) →
        Nested (ofPath attr path).toList) := by
  obtain ⟨htokens, hpath⟩ := (laid_tokensOf path.toList).openedAfter_eq
    (wellCut_tokensOf path.toList).apart closed
  have hall := fun token mem => ofToken_balanced plain (htokens token mem) (enclosable token mem)
  have hselectors : ∀ t ∈ (tokensOf path.toList).map (ofToken attr.toList), Closed t :=
    List.forall_mem_map.mpr fun token mem => (hall token mem).2.1
  have hrests : ∀ t ∈ (tokensOf path.toList).map restOf, Closed t :=
    List.forall_mem_map.mpr fun token mem => (hall token mem).1
  have hsame : Nested (ofPath attr path).toList ↔
      Nested (join ((tokensOf path.toList).map restOf)) := by
    rw [ofPath, String.toList_ofList, Nested, Nested, opened?_join hselectors, opened?_join hrests,
      openedAfter_map_congr fun token mem => (hall token mem).2.2]
  refine ⟨?_, hsame, fun names => hsame.mpr ?_⟩
  · rw [ofPath, String.toList_ofList]
    exact closed_join hselectors
  · have hnames : ∀ token ∈ tokensOf path.toList, ∀ opened,
        Bracket.opened? .outside opened (restOf token) =
          Bracket.opened? .outside opened (id token) := by
      intro token mem opened
      have hwhole := nameOf_append_restOf token
      conv_rhs => rw [id, ← hwhole, Bracket.opened?_append,
        even_iff_nested.mpr (names token mem), (enclosable token mem).closed]
      rfl
    rw [Nested, opened?_join hrests, openedAfter_map_congr hnames, List.map_id, ← hpath]
    exact nested

/-- Brackets in a name, in a quoted text and behind a name, all of them closed. -/
theorem ofPath_balanced_brackets :
    let path := "box[1] row:has(a (b '] ')) x\\\\y"
    let selector := "[data-test='box[1]'] [data-test='row']:has(a (b '] ')) [data-test='x\\\\y']"
    (∀ c ∈ "data-test".toList, isPlainChar c = true) ∧ Closed path.toList ∧ Nested path.toList ∧
      (∀ token ∈ tokensOf path.toList, Enclosable (nameOf token) ∧ Nested (nameOf token)) ∧
      ofPath "data-test" path = selector ∧ Closed selector.toList ∧ Nested selector.toList := by
  intro path selector
  have plain : ∀ c ∈ "data-test".toList, isPlainChar c = true := List.all_eq_true.mp (by decide)
  have closed : Closed path.toList := by decide
  have nested : Nested path.toList := by decide
  have bare : ∀ token ∈ tokensOf path.toList, '\'' ∉ nameOf token ∧
      Quote.inside.after (nameOf token) = .inside ∧ Nested (nameOf token) := by
    decide
  have names : ∀ token ∈ tokensOf path.toList,
      Enclosable (nameOf token) ∧ Nested (nameOf token) := by
    intro token mem
    obtain ⟨hquote, inside, hnested⟩ := bare token mem
    exact ⟨enclosable_of_no_quote hquote inside, hnested⟩
  have hselector : ofPath "data-test" path = selector := by decide
  obtain ⟨hclosed, -, hnested⟩ := ofPath_balanced "data-test" path plain closed nested
    fun token mem => (names token mem).1
  rw [hselector] at hclosed hnested
  exact ⟨plain, closed, nested, names, hselector, hclosed,
    hnested fun token mem => (names token mem).2⟩

/-- The first path has a group that starts in a name and ends behind it. The second has a group that
is cut in two, since another one of its kind is opened in it. -/
theorem ofPath_splits_groups :
    (∀ c ∈ "data-test".toList, isPlainChar c = true) ∧
      ∀ path ∈ ["a(b:c)", "a( (b) c)"], Closed path.toList ∧ Nested path.toList ∧
        ¬ Nested (ofPath "data-test" path).toList :=
  ⟨List.all_eq_true.mp (by decide), by decide⟩

end PageNav
