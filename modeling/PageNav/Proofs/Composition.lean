import PageNav.Proofs.Grouping
import PageNav.Proofs.Relative

/-!
# Tokens of texts put together

A text behind another one can change how the first is cut, since the look ahead goes on into it. It
does not if all quotes of the first text are closed and the second closes no group that it did not
open. If it closes one, no blank in front of it is ever cut.
-/

namespace PageNav

open Text

/-- Outside quotes, no bracket of this kind is closed before one is opened: the first one, if there
is one, is an opening one. -/
def Bracket.OpensFirst (k : Bracket) (text : List Char) : Prop :=
  ∀ a b, text = a ++ k.closing :: b → Closed a → k.Opens .outside a

theorem Bracket.exists_closing {k : Bracket} {q : Quote} {text : List Char}
    (h : k.closesFirst q text = true) :
    ∃ a b, text = a ++ k.closing :: b ∧ q.after a = .outside ∧ ¬ k.Opens q a := by
  induction text generalizing q with
  | nil => exact absurd h (by simp [closesFirst])
  | cons c cs ih =>
    by_cases hq : q = .outside
    · subst hq
      rw [closesFirst] at h
      split_ifs at h with hopening hclosing
      · exact ⟨[], cs, by rw [hclosing, List.nil_append], rfl, not_opens_nil k _⟩
      · obtain ⟨a, b, rfl, outside, hopens⟩ := ih h
        refine ⟨c :: a, b, rfl, outside, ?_⟩
        rw [opens_cons, not_or]
        exact ⟨fun hc => hopening hc.2, hopens⟩
    · rw [closesFirst_inside hq] at h
      obtain ⟨a, b, rfl, outside, hopens⟩ := ih h
      refine ⟨c :: a, b, rfl, outside, ?_⟩
      rw [opens_cons, not_or]
      exact ⟨fun hc => hq hc.1, hopens⟩

theorem Bracket.opensFirst_iff {k : Bracket} {text : List Char} :
    k.OpensFirst text ↔ k.closesFirst .outside text = false := by
  constructor
  · intro h
    by_contra hcloses
    rw [Bool.not_eq_false] at hcloses
    obtain ⟨a, b, htext, outside, hopens⟩ := exists_closing hcloses
    exact hopens (h a b htext outside)
  · rintro h a b rfl outside
    by_contra hopens
    rw [closesFirst_of_not_opens outside hopens] at h
    exact absurd h (by decide)

theorem opensFirst_iff_not_inGroup {text : List Char} :
    (∀ k : Bracket, k.OpensFirst text) ↔ inGroup text = false := by
  rw [inGroup_eq_false]
  exact forall_congr' fun k => Bracket.opensFirst_iff

namespace Path

theorem tokensOf_append_blanks {p w k : List Char} (closed : Closed p)
    (filled : w ≠ []) (blank : ∀ c ∈ w, isBlank c = true) (ungrouped : inGroup k = false) :
    tokensOf (p ++ w ++ k) = tokensOf p ++ tokensOf k := by
  obtain ⟨c, w, rfl⟩ := List.exists_cons_of_ne_nil filled
  obtain ⟨hc, hw⟩ := List.forall_mem_cons.mp blank
  have hrest : inGroup (w ++ k) = false := by rw [inGroup_blanks hw, ungrouped]
  rw [List.append_assoc, List.cons_append, tokensOf_append closed hc hrest,
    tokensOf_blanks hw ungrouped]

/-! ## What is not cut away -/

/-- How many characters of a text are left in its tokens, if it is read on in state `q`. -/
def kept (q : Quote) (text : List Char) : Nat :=
  (split q text).1.length + (split q text).2.flatten.length

theorem flatten_consToken (t : List Char) (ts : List (List Char)) :
    (consToken t ts).flatten = t ++ ts.flatten := by
  unfold consToken
  split
  · next h => rw [List.isEmpty_iff.mp h, List.nil_append]
  · rfl

theorem length_flatten_tokensOf (text : List Char) :
    (tokensOf text).flatten.length = kept .outside text := by
  rw [tokensOf, flatten_consToken, List.length_append]
  rfl

theorem kept_cut {c : Char} {cs : List Char} (cut : separates .outside c cs = true) :
    kept .outside (c :: cs) = kept .outside cs := by
  rw [kept, split_cons_cut cut, length_flatten_tokensOf, List.length_nil, Nat.zero_add]

theorem kept_keep {q : Quote} {c : Char} {cs : List Char} (keep : ¬ separates q c cs = true) :
    kept q (c :: cs) = kept (q.next c) cs + 1 := by
  rw [kept, split_cons_keep keep]
  exact Nat.add_right_comm ..

theorem kept_append_le (q : Quote) (a b : List Char) :
    kept q a + kept (q.after a) b ≤ kept q (a ++ b) := by
  induction a generalizing q with
  | nil => simp [kept, split]
  | cons c a ih =>
    have hrest := ih (q.next c)
    rw [List.cons_append, Quote.after_cons]
    by_cases hcut : separates q c a = true
    · obtain ⟨rfl, blank, -⟩ := separates_iff.mp hcut
      rw [next_of_isBlank blank] at hrest ⊢
      rw [kept_cut hcut]
      -- what follows can only turn a cut into a blank that is kept
      by_cases hlater : separates .outside c (a ++ b) = true
      · rwa [kept_cut hlater]
      · rw [kept_keep hlater, next_of_isBlank blank]
        omega
    · have hlater : ¬ separates q c (a ++ b) = true := by
        rw [separates_iff] at hcut ⊢
        rintro ⟨hq, blank, hout⟩
        refine hcut ⟨hq, blank, ?_⟩
        by_contra hin
        rw [inGroup_append_of_inGroup (Bool.not_eq_false _ ▸ hin) b] at hout
        exact absurd hout (by decide)
      rw [kept_keep hcut, kept_keep hlater]
      omega

theorem kept_blanks {w k : List Char} (blank : ∀ c ∈ w, isBlank c = true)
    (grouped : inGroup k = true) : kept .outside (w ++ k) = w.length + kept .outside k := by
  have closed : Closed w := (fair_mute fun c hc => mute_of_isBlank (blank c hc)).closed
  rw [kept, split_uncut (uncut_blanks blank grouped), closed, List.length_append]
  exact Nat.add_assoc ..

theorem tokensOf_append_ne {p w k : List Char} (closed : Closed p)
    (filled : w ≠ []) (blank : ∀ c ∈ w, isBlank c = true) (grouped : inGroup k = true) :
    tokensOf (p ++ w ++ k) ≠ tokensOf p ++ tokensOf k := by
  intro h
  -- the tokens would hold no character of `w`, which is kept all the same
  have hlength := congrArg (fun ts => ts.flatten.length) h
  simp only [List.flatten_append, List.length_append, length_flatten_tokensOf] at hlength
  have hle := kept_append_le .outside p (w ++ k)
  rw [closed, kept_blanks blank grouped, ← List.append_assoc, hlength] at hle
  have hpos := List.length_pos_of_ne_nil filled
  omega

/-! ## Putting texts together -/

theorem forall_isBlank {w : String} : allBlank w = true ↔ ∀ c ∈ w.toList, isBlank c = true :=
  List.all_eq_true

/-- Blanks after closed quotes keep the tokens of two texts apart exactly if, for each kind of
brackets, the second text opens one before it closes one. Nothing is asked of the brackets of the
first text, nor of the quotes of the second. -/
theorem tokens_append_iff (p w k : String) (closed : Closed p.toList) (filled : w ≠ "")
    (blank : allBlank w = true) :
    tokens (p ++ w ++ k) = tokens p ++ tokens k ↔
      ∀ kind : Bracket, kind.OpensFirst k.toList := by
  have hw : w.toList ≠ [] := by simpa using filled
  have hblank := forall_isBlank.mp blank
  rw [opensFirst_iff_not_inGroup, tokens, tokens, tokens, String.toList_append,
    String.toList_append, ← List.map_append, (List.map_injective_iff.mpr ofList_injective).eq_iff]
  constructor
  · intro h
    by_contra hin
    exact tokensOf_append_ne closed hw hblank (Bool.not_eq_false _ ▸ hin) h
  · exact tokensOf_append_blanks closed hw hblank

/-- The first text closes one bracket too many and leaves another open. The second text opens a
bracket, and then a quote in which the closing one stands. -/
theorem tokens_of_open_texts :
    tokens ("a) 'it\\'s [' [b" ++ "\t " ++ "(c 'd ) e") =
      ["a)", "'it\\'s ['", "[b", "(c", "'d ) e"] := by
  have hopens : ∀ kind : Bracket, kind.OpensFirst "(c 'd ) e".toList := by
    intro kind
    rw [Bracket.opensFirst_iff]
    cases kind <;> decide
  have closed : Closed "a) 'it\\'s [' [b".toList := by
    unfold Closed
    decide
  rw [(tokens_append_iff _ _ _ closed (by decide) (by decide)).mpr hopens]
  decide

end Path

end PageNav
