import PageNav.Proofs.Nesting
import PageNav.Proofs.Placement

/-!
# Blanks and groups

The look ahead keeps no stack of brackets. Where brackets stand inside each other, it finds the
groups around a blank all the same, unless one of the same kind is opened before the group ends.
-/

namespace PageNav

open Text

/-! ## Groups and their ends -/

namespace Bracket

theorem step?_closing_eq_some {opened next : List Bracket} {k : Bracket} :
    step? opened k.closing = some next ↔ opened = k :: next := by
  rw [step?_closing]
  constructor
  · intro h
    split_ifs at h with hhead
    obtain ⟨outer, rfl⟩ := List.head?_eq_some_iff.mp hhead
    exact congrArg (k :: ·) (Option.some.inj h)
  · rintro rfl
    rw [List.head?_cons, if_pos rfl, List.tail_cons]

theorem step?_cases {opened next : List Bracket} {c : Char} (h : step? opened c = some next) :
    (∃ j : Bracket, c = j.opening ∧ next = j :: opened) ∨
    (∃ j : Bracket, c = j.closing ∧ opened = j :: next) ∨
    ((∀ j : Bracket, c ≠ j.opening ∧ c ≠ j.closing) ∧ next = opened) := by
  by_cases hopening : ∃ j : Bracket, c = j.opening
  · obtain ⟨j, rfl⟩ := hopening
    rw [step?_opening] at h
    exact .inl ⟨j, rfl, (Option.some.inj h).symm⟩
  by_cases hclosing : ∃ j : Bracket, c = j.closing
  · obtain ⟨j, rfl⟩ := hclosing
    exact .inr (.inl ⟨j, rfl, step?_closing_eq_some.mp h⟩)
  · have hother : ∀ j : Bracket, c ≠ j.opening ∧ c ≠ j.closing := fun j =>
      ⟨fun hc => hopening ⟨j, hc⟩, fun hc => hclosing ⟨j, hc⟩⟩
    rw [step?_other opened hother] at h
    exact .inr (.inr ⟨hother, (Option.some.inj h).symm⟩)

theorem opened?_inside {q : Quote} (hq : q ≠ .outside) (opened : List Bracket) (c : Char)
    (cs : List Char) : opened? q opened (c :: cs) = opened? (q.next c) opened cs := by
  cases q with
  | outside => exact absurd rfl hq
  | inside => rfl
  | escaped => rfl

theorem closesFirst_inside {q : Quote} (hq : q ≠ .outside) (k : Bracket) (c : Char)
    (cs : List Char) : k.closesFirst q (c :: cs) = k.closesFirst (q.next c) cs := by
  cases q with
  | outside => exact absurd rfl hq
  | inside => rfl
  | escaped => rfl

/-- The text up to the bracket that closes a group of kind `k` in which the brackets `inner` are
still open. -/
structure ClosedAfter (k : Bracket) (q : Quote) (inner : List Bracket)
    (rest between : List Char) : Prop where
  ends : ∃ after, rest = between ++ k.closing :: after
  outside : q.after between = .outside
  closed : opened? q inner between = some []

theorem closedAfter_nil (k : Bracket) (cs : List Char) :
    ClosedAfter k .outside [] (k.closing :: cs) [] :=
  ⟨⟨cs, rfl⟩, rfl, rfl⟩

theorem ClosedAfter.cons {k : Bracket} {inner next : List Bracket} {c : Char}
    {cs between : List Char} (h : ClosedAfter k (Quote.outside.next c) next cs between)
    (hstep : step? inner c = some next) :
    ClosedAfter k .outside inner (c :: cs) (c :: between) := by
  obtain ⟨⟨after, rfl⟩, outside, closed⟩ := h
  refine ⟨⟨after, rfl⟩, outside, ?_⟩
  rw [opened?, hstep, Option.bind_some, closed]

theorem ClosedAfter.cons_inside {k : Bracket} {q : Quote} {inner : List Bracket} {c : Char}
    {cs between : List Char} (h : ClosedAfter k (q.next c) inner cs between)
    (hq : q ≠ .outside) : ClosedAfter k q inner (c :: cs) (c :: between) := by
  obtain ⟨⟨after, rfl⟩, outside, closed⟩ := h
  refine ⟨⟨after, rfl⟩, outside, ?_⟩
  rw [opened?_inside hq, closed]

/-- Every group that is open at some place has its end, if all brackets are closed. -/
theorem exists_closedAfter {k : Bracket} {q : Quote} {inner outer : List Bracket}
    {rest : List Char} (nested : opened? q (inner ++ k :: outer) rest = some []) :
    ∃ between, ClosedAfter k q inner rest between := by
  induction rest generalizing q inner with
  | nil => exact absurd (Option.some.inj nested) (by simp)
  | cons c cs ih =>
    by_cases hq : q = .outside
    · subst hq
      rw [opened?] at nested
      obtain ⟨next, hstep, hrest⟩ := Option.bind_eq_some_iff.mp nested
      rcases step?_cases hstep with ⟨j, rfl, rfl⟩ | ⟨j, rfl, hopened⟩ | ⟨hother, rfl⟩
      · rw [← List.cons_append] at hrest
        obtain ⟨between, h⟩ := ih hrest
        exact ⟨_, h.cons (step?_opening inner j)⟩
      · -- The group itself ends where a bracket is closed and none in the group is open.
        cases inner with
        | nil =>
          obtain ⟨rfl, -⟩ := List.cons.inj hopened
          exact ⟨[], closedAfter_nil k cs⟩
        | cons i inner =>
          obtain ⟨rfl, rfl⟩ := List.cons.inj hopened
          obtain ⟨between, h⟩ := ih hrest
          exact ⟨_, h.cons (step?_closing_eq_some.mpr rfl)⟩
      · obtain ⟨between, h⟩ := ih hrest
        exact ⟨_, h.cons (step?_other inner hother)⟩
    · rw [opened?_inside hq] at nested
      obtain ⟨between, h⟩ := ih nested
      exact ⟨_, h.cons_inside hq⟩

/-! ## What the look ahead finds -/

/-- Outside quotes a bracket of kind `k` is opened in the text. -/
def Opens (k : Bracket) (q : Quote) (text : List Char) : Prop :=
  ∃ a b, text = a ++ k.opening :: b ∧ q.after a = .outside

theorem not_opens_nil (k : Bracket) (q : Quote) : ¬ Opens k q [] := by
  rintro ⟨a, b, htext, -⟩
  simp at htext

theorem opens_cons {k : Bracket} {q : Quote} {c : Char} {cs : List Char} :
    Opens k q (c :: cs) ↔ (q = .outside ∧ c = k.opening) ∨ Opens k (q.next c) cs := by
  constructor
  · rintro ⟨a, b, htext, outside⟩
    cases a with
    | nil => exact .inl ⟨outside, (List.cons.inj htext).1⟩
    | cons d a =>
      obtain ⟨rfl, rfl⟩ := List.cons.inj htext
      exact .inr ⟨a, b, rfl, outside⟩
  · rintro (⟨rfl, rfl⟩ | ⟨a, b, rfl, outside⟩)
    · exact ⟨[], cs, rfl, rfl⟩
    · exact ⟨c :: a, b, rfl, outside⟩

theorem closing_ne_opening (k : Bracket) : k.closing ≠ k.opening := by
  cases k <;> decide

/-- The look ahead finds a group of kind `k` if none is opened before it ends. -/
theorem closesFirst_of_not_opens {k : Bracket} {q : Quote} {between : List Char}
    (outside : q.after between = .outside) (h : ¬ Opens k q between) (after : List Char) :
    k.closesFirst q (between ++ k.closing :: after) = true := by
  induction between generalizing q with
  | nil =>
    obtain rfl : q = .outside := outside
    rw [List.nil_append, closesFirst, if_neg k.closing_ne_opening, if_pos rfl]
  | cons c cs ih =>
    rw [opens_cons, not_or] at h
    have hlater := ih outside h.2
    by_cases hq : q = .outside
    · subst hq
      rw [List.cons_append, closesFirst, if_neg fun hc => h.1 ⟨rfl, hc⟩, hlater, ite_self]
    · rw [List.cons_append, closesFirst_inside hq, hlater]

/-- A group of kind `k` is around a place where the brackets `opened` are open, and no other of this
kind is opened before the innermost one ends. -/
def Shelters (k : Bracket) (q : Quote) (opened : List Bracket) (rest : List Char) : Prop :=
  ∃ inner outer between, opened = inner ++ k :: outer ∧ k ∉ inner ∧
    ClosedAfter k q inner rest between ∧ ¬ Opens k q between

theorem Shelters.cons {k : Bracket} {opened next : List Bracket} {c : Char} {cs : List Char}
    (h : Shelters k (Quote.outside.next c) next cs) (hstep : step? opened c = some next)
    (hopening : c ≠ k.opening) (hclosing : c ≠ k.closing) :
    Shelters k .outside opened (c :: cs) := by
  obtain ⟨inner, outer, between, rfl, hinner, hclosed, hopens⟩ := h
  have hlater : ¬ Opens k .outside (c :: between) := by
    rw [opens_cons, not_or]
    exact ⟨fun hc => hopening hc.2, hopens⟩
  rcases step?_cases hstep with ⟨j, rfl, hnext⟩ | ⟨j, rfl, rfl⟩ | ⟨hother, rfl⟩
  · cases inner with
    | nil =>
      obtain ⟨rfl, -⟩ := List.cons.inj hnext
      exact absurd rfl hopening
    | cons i inner =>
      obtain ⟨rfl, rfl⟩ := List.cons.inj hnext
      exact ⟨inner, outer, _, rfl, fun hk => hinner (List.mem_cons_of_mem _ hk),
        hclosed.cons (step?_opening inner _), hlater⟩
  · have hk : k ∉ j :: inner := by
      rw [List.mem_cons, not_or]
      exact ⟨fun hkj => hclosing (hkj ▸ rfl), hinner⟩
    exact ⟨j :: inner, outer, _, rfl, hk, hclosed.cons (step?_closing_eq_some.mpr rfl), hlater⟩
  · exact ⟨inner, outer, _, rfl, hinner, hclosed.cons (step?_other inner hother), hlater⟩

theorem Shelters.cons_inside {k : Bracket} {q : Quote} {opened : List Bracket} {c : Char}
    {cs : List Char} (h : Shelters k (q.next c) opened cs) (hq : q ≠ .outside) :
    Shelters k q opened (c :: cs) := by
  obtain ⟨inner, outer, between, rfl, hinner, hclosed, hopens⟩ := h
  refine ⟨inner, outer, _, rfl, hinner, hclosed.cons_inside hq, ?_⟩
  rw [opens_cons, not_or]
  exact ⟨fun hc => hq hc.1, hopens⟩

theorem shelters_of_closesFirst {k : Bracket} {q : Quote} {opened left : List Bracket}
    {rest : List Char} (nested : opened? q opened rest = some left)
    (h : k.closesFirst q rest = true) : Shelters k q opened rest := by
  induction rest generalizing q opened with
  | nil => exact absurd h (by simp [closesFirst])
  | cons c cs ih =>
    by_cases hq : q = .outside
    · subst hq
      rw [opened?] at nested
      obtain ⟨next, hstep, hrest⟩ := Option.bind_eq_some_iff.mp nested
      rw [closesFirst] at h
      split_ifs at h with hopening hclosing
      · subst hclosing
        obtain rfl := step?_closing_eq_some.mp hstep
        exact ⟨[], next, [], rfl, List.not_mem_nil, closedAfter_nil k cs, not_opens_nil k _⟩
      · exact (ih hrest h).cons hstep hopening hclosing
    · rw [opened?_inside hq] at nested
      rw [closesFirst_inside hq] at h
      exact (ih nested h).cons_inside hq

theorem closesFirst_of_closedAfter {k : Bracket} {q : Quote} {inner : List Bracket}
    {rest between : List Char} (closed : ClosedAfter k q inner rest between)
    (h : ¬ Opens k q between) : k.closesFirst q rest = true := by
  obtain ⟨⟨after, rfl⟩, outside, -⟩ := closed
  exact closesFirst_of_not_opens outside h after

theorem closesFirst_iff_shelters {k : Bracket} {q : Quote} {opened left : List Bracket}
    {rest : List Char} (nested : opened? q opened rest = some left) :
    k.closesFirst q rest = true ↔ Shelters k q opened rest := by
  refine ⟨shelters_of_closesFirst nested, ?_⟩
  rintro ⟨inner, outer, between, -, -, closed, h⟩
  exact closesFirst_of_closedAfter closed h

end Bracket

/-- Where brackets stand inside each other, the look ahead finds what the open brackets tell. -/
theorem inGroup_iff_shelters {opened left : List Bracket} {rest : List Char}
    (nested : Bracket.opened? .outside opened rest = some left) :
    inGroup rest = true ↔ ∃ k : Bracket, k.Shelters .outside opened rest := by
  rw [inGroup_eq_true]
  exact exists_congr fun k => Bracket.closesFirst_iff_shelters nested

theorem Nested.exists_opened {p rest : List Char} (nested : Nested (p ++ rest)) (closed : Closed p) :
    ∃ opened, Bracket.opened? .outside [] p = some opened ∧
      Bracket.opened? .outside opened rest = some [] := by
  rw [Nested, Bracket.opened?_append, closed] at nested
  exact Option.bind_eq_some_iff.mp nested

theorem mute_of_isBlank {c : Char} (blank : isBlank c = true) : Mute c :=
  ⟨ne_quote_of_isBlank blank, fun k => k.ne_of_isBlank blank⟩

theorem opened?_blanks {w : List Char} (blank : ∀ c ∈ w, isBlank c = true) (opened : List Bracket)
    (rest : List Char) :
    Bracket.opened? .outside opened (w ++ rest) = Bracket.opened? .outside opened rest := by
  have hfair := fair_mute fun c hc => mute_of_isBlank (blank c hc)
  rw [Bracket.opened?_append, hfair.even, hfair.closed]
  rfl

namespace Path

/-! ## The tokens and the groups -/

/-- In a text whose brackets stand inside each other, blanks in quotes are part of tokens. A run of
blanks outside quotes is part of a token if some group shelters it, and otherwise separates tokens:
outside all groups it always does, and where no group of the same kind is opened before the end of a
group around it, it never does. -/
theorem tokens_follow_groups {text : List Char} (nested : Nested text) :
    (∀ p c r, text = p ++ c :: r → ¬ Closed p → InToken p [c] r) ∧
    ∀ p w r, text = p ++ w ++ r → Run p w r →
      ∃ opened, Bracket.opened? .outside [] p = some opened ∧
        (InToken p w r ↔ ∃ k : Bracket, k.Shelters .outside opened r) ∧
        (Separated p w r ↔ ¬ ∃ k : Bracket, k.Shelters .outside opened r) ∧
        (opened = [] → Separated p w r) ∧
        ∀ (k : Bracket) inner outer, opened = inner ++ k :: outer →
          ∃ between, k.ClosedAfter .outside inner r between ∧
            (¬ k.Opens .outside between → InToken p w r) := by
  refine ⟨fun p c r _ h => inToken_of_not_closed c h, ?_⟩
  rintro p w r rfl run
  rw [List.append_assoc] at nested
  obtain ⟨opened, hopened, hrest⟩ := nested.exists_opened run.outside
  rw [opened?_blanks run.blank] at hrest
  have hgroup := inGroup_iff_shelters hrest
  refine ⟨opened, hopened, ?_, ?_, ?_, ?_⟩
  · rw [run.inToken_iff, hgroup]
  · rw [run.separated_iff, hgroup]
  · rintro rfl
    rw [run.separated_iff, hgroup]
    rintro ⟨k, inner, outer, between, hnone, -⟩
    exact absurd hnone (by simp)
  · rintro k inner outer rfl
    obtain ⟨between, hclosed⟩ := Bracket.exists_closedAfter hrest
    refine ⟨between, hclosed, fun hopens => ?_⟩
    rw [run.inToken_iff, inGroup_eq_true]
    exact ⟨k, Bracket.closesFirst_of_closedAfter hclosed hopens⟩

/-- The group around the first blank is not seen, since another one of its kind is opened before it
ends. The group around the second one is. -/
theorem groups_around_blanks :
    Separated "a(b".toList [' '] "(c) d) ' )' e".toList ∧
      InToken "a(b (c)".toList [' '] "d) ' )' e".toList ∧
      InToken "a(b (c) d) '".toList [' '] ")' e".toList := by
  have nested : Nested "a(b (c) d) ' )' e".toList := rfl
  obtain ⟨hquoted, hruns⟩ := tokens_follow_groups nested
  refine ⟨?_, ?_, hquoted _ _ _ rfl (by unfold Closed; decide)⟩
  · have run : Run "a(b".toList [' '] "(c) d) ' )' e".toList :=
      ⟨List.cons_ne_nil _ _, List.all_eq_true.mp (by decide), rfl,
        fun _ hc => Option.some.inj hc ▸ rfl, fun _ hc => Option.some.inj hc ▸ rfl⟩
    have hrest : Bracket.opened? .outside [.round] "(c) d) ' )' e".toList = some [] := rfl
    obtain ⟨opened, hopened, -, hseparated, -⟩ := hruns _ _ _ rfl run
    obtain rfl : [Bracket.round] = opened := Option.some.inj hopened
    rw [hseparated, ← inGroup_iff_shelters hrest]
    decide
  · have run : Run "a(b (c)".toList [' '] "d) ' )' e".toList :=
      ⟨List.cons_ne_nil _ _, List.all_eq_true.mp (by decide), rfl,
        fun _ hc => Option.some.inj hc ▸ rfl, fun _ hc => Option.some.inj hc ▸ rfl⟩
    have hrest : Bracket.opened? .outside [.round] "d) ' )' e".toList = some [] := rfl
    obtain ⟨opened, hopened, hinside, -⟩ := hruns _ _ _ rfl run
    obtain rfl : [Bracket.round] = opened := Option.some.inj hopened
    rw [hinside, ← inGroup_iff_shelters hrest]
    decide

end Path

end PageNav
