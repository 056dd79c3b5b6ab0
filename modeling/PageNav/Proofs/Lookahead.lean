import PageNav.Path.Token

/-!
# What the look ahead sees

Whether a blank lies in a group is decided by the brackets after it. Text that follows closed quotes
and does not close a group first changes nothing about that.
-/

namespace PageNav

open Text

def Closed (text : List Char) : Prop := Quote.outside.after text = .outside

/-! ## Blanks -/

theorem ne_quote_of_isBlank {c : Char} (blank : isBlank c = true) : c ≠ '\'' := by
  rintro rfl
  revert blank
  decide

theorem next_of_isBlank {c : Char} (blank : isBlank c = true) :
    Quote.outside.next c = .outside := by
  simp [Quote.next, ne_quote_of_isBlank blank]

namespace Bracket

theorem mem_kinds (k : Bracket) : k ∈ kinds := by
  cases k <;> decide

theorem not_isBlank_opening (k : Bracket) : isBlank k.opening = false := by
  cases k <;> decide

theorem not_isBlank_closing (k : Bracket) : isBlank k.closing = false := by
  cases k <;> decide

theorem ne_of_isBlank (k : Bracket) {c : Char} (blank : isBlank c = true) :
    c ≠ k.opening ∧ c ≠ k.closing := by
  constructor
  · rintro rfl
    rw [k.not_isBlank_opening] at blank
    exact absurd blank (by decide)
  · rintro rfl
    rw [k.not_isBlank_closing] at blank
    exact absurd blank (by decide)

theorem closesFirst_blank (k : Bracket) {c : Char} (blank : isBlank c = true) (cs : List Char) :
    k.closesFirst .outside (c :: cs) = k.closesFirst .outside cs := by
  obtain ⟨hopen, hclose⟩ := k.ne_of_isBlank blank
  rw [closesFirst, if_neg hopen, if_neg hclose, next_of_isBlank blank]

/-! ## Text after text -/

theorem closesFirst_append (k : Bracket) (q : Quote) (a b : List Char)
    (closed : q.after a = .outside) (hb : k.closesFirst .outside b = false) :
    k.closesFirst q (a ++ b) = k.closesFirst q a := by
  induction a generalizing q with
  | nil =>
    rw [Quote.after_nil] at closed
    rw [closed, List.nil_append, hb]
    rfl
  | cons c a ih =>
    have hrest := ih (q.next c) closed
    cases q with
    | outside => simp only [List.cons_append, closesFirst, hrest]
    | inside => simp only [List.cons_append, closesFirst, hrest]
    | escaped => simp only [List.cons_append, closesFirst, hrest]

end Bracket

theorem inGroup_eq_false {rest : List Char} :
    inGroup rest = false ↔ ∀ k : Bracket, k.closesFirst .outside rest = false := by
  simp only [inGroup, List.any_eq_false, Bool.not_eq_true]
  exact ⟨fun h k => h k k.mem_kinds, fun h k _ => h k⟩

theorem inGroup_congr {a b : List Char}
    (same : ∀ k : Bracket, k.closesFirst .outside a = k.closesFirst .outside b) :
    inGroup a = inGroup b := by
  simp only [inGroup, same]

theorem inGroup_blank {c : Char} (blank : isBlank c = true) (cs : List Char) :
    inGroup (c :: cs) = inGroup cs :=
  inGroup_congr fun k => k.closesFirst_blank blank cs

theorem inGroup_append {a b : List Char} (closed : Closed a) (hb : inGroup b = false) :
    inGroup (a ++ b) = inGroup a :=
  inGroup_congr fun k => k.closesFirst_append .outside a b closed (inGroup_eq_false.mp hb k)

end PageNav
