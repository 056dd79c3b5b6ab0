import Mathlib.Data.List.Chain
import PageNav.Proofs.Lookahead

/-!
# Tokens stay tokens

The tokens of a text are the tokens of any text that is put together from them: cut alone, in runs
or with other blanks between them, they are cut in the same places.
-/

namespace PageNav.Path

open Text

/-! ## Cutting at a blank -/

theorem separates_append (q : Quote) (d : Char) (p : List Char) {c : Char} {k : List Char}
    (closed : (q.next d).after p = .outside) (blank : isBlank c = true) (hk : inGroup k = false) :
    separates q d (p ++ c :: k) = separates q d p := by
  by_cases hd : q = .outside ∧ isBlank d = true
  · obtain ⟨rfl, hd⟩ := hd
    rw [next_of_isBlank hd] at closed
    have hck : inGroup (c :: k) = false := by rw [inGroup_blank blank, hk]
    rw [separates, separates, inGroup_append closed hck]
  · have hno : (decide (q = .outside) && isBlank d) = false := by
      rw [Bool.and_eq_false_iff, decide_eq_false_iff_not]
      rcases not_and_or.mp hd with h | h
      · exact Or.inl h
      · exact Or.inr (by simpa using h)
    rw [separates, separates, hno, Bool.false_and, Bool.false_and]

theorem consToken_append (t : List Char) (ts us : List (List Char)) :
    consToken t (ts ++ us) = consToken t ts ++ us := by
  unfold consToken
  split <;> rfl

theorem split_append (q : Quote) (p : List Char) {c : Char} {k : List Char}
    (closed : q.after p = .outside) (blank : isBlank c = true) (hk : inGroup k = false) :
    split q (p ++ c :: k) = ((split q p).1, (split q p).2 ++ tokensOf k) := by
  induction p generalizing q with
  | nil =>
    rw [Quote.after_nil] at closed
    subst closed
    have hcut : separates .outside c k = true := by simp [separates, blank, hk]
    simp only [List.nil_append, split, if_pos hcut]
    rfl
  | cons d p ih =>
    have hsame := separates_append q d p closed blank hk
    rw [List.cons_append, split, split, hsame]
    split
    · next hcut =>
      have hq : q = .outside ∧ isBlank d = true := by
        simp only [separates, Bool.and_eq_true, decide_eq_true_eq] at hcut
        exact hcut.1
      obtain ⟨rfl, hd⟩ := hq
      rw [Quote.after_cons, next_of_isBlank hd] at closed
      rw [ih .outside closed]
      simp only [consToken_append]
    · rw [ih (q.next d) closed]

theorem tokensOf_append {p k : List Char} {c : Char} (closed : Closed p) (blank : isBlank c = true)
    (hk : inGroup k = false) : tokensOf (p ++ c :: k) = tokensOf p ++ tokensOf k := by
  rw [tokensOf, split_append .outside p closed blank hk]
  exact consToken_append _ _ _

/-! ## Tokens that a blank keeps apart -/

/-- A blank between the two texts is not in a group and not in quotes. -/
def Apart (t u : List Char) : Prop := Closed t ∧ inGroup u = false

/-- Each text is a token, and blanks between them keep them apart. -/
structure WellCut (ts : List (List Char)) : Prop where
  single : ∀ t ∈ ts, tokensOf t = [t]
  apart : ts.IsChain Apart

namespace WellCut

theorem left_of_append {ts us : List (List Char)} (h : WellCut (ts ++ us)) : WellCut ts :=
  ⟨fun t ht => h.single t (List.mem_append_left us ht), h.apart.left_of_append⟩

theorem right_of_append {ts us : List (List Char)} (h : WellCut (ts ++ us)) : WellCut us :=
  ⟨fun t ht => h.single t (List.mem_append_right ts ht), h.apart.right_of_append⟩

theorem of_cons {t : List Char} {ts : List (List Char)} (h : WellCut (t :: ts)) : WellCut ts := by
  rw [← List.singleton_append] at h
  exact h.right_of_append

theorem ne_nil {ts : List (List Char)} (h : WellCut ts) {t : List Char} (ht : t ∈ ts) : t ≠ [] := by
  rintro rfl
  exact absurd (h.single [] ht) (by decide)

end WellCut

theorem join_cons_cons (t u : List Char) (ts : List (List Char)) :
    join (t :: u :: ts) = t ++ ' ' :: join (u :: ts) := by
  simp [join]

theorem join_ne_nil {t : List Char} (ht : t ≠ []) (ts : List (List Char)) :
    join (t :: ts) ≠ [] := by
  intro h
  cases ts with
  | nil => exact ht (by simpa [join] using h)
  | cons u ts =>
    rw [join_cons_cons] at h
    exact ht (List.append_eq_nil_iff.mp h).1

theorem join_append {ts us : List (List Char)} (hts : ts ≠ []) (hus : us ≠ []) :
    join (ts ++ us) = join ts ++ ' ' :: join us := by
  induction ts with
  | nil => exact absurd rfl hts
  | cons t ts ih =>
    cases ts with
    | nil =>
      obtain ⟨u, us, rfl⟩ := List.exists_cons_of_ne_nil hus
      simp [join]
    | cons t' ts =>
      rw [List.cons_append, List.cons_append, join_cons_cons, join_cons_cons]
      rw [← List.cons_append, ih (by simp)]
      simp

/-- The first of the joined tokens decides whether a blank before them lies in a group. -/
theorem inGroup_join {t : List Char} {ts : List (List Char)} (ht : inGroup t = false)
    (apart : (t :: ts).IsChain Apart) : inGroup (join (t :: ts)) = false := by
  induction ts generalizing t with
  | nil => simpa [join] using ht
  | cons u ts ih =>
    obtain ⟨⟨closed, hu⟩, hrest⟩ := List.isChain_cons_cons.mp apart
    have hspace : inGroup (' ' :: join (u :: ts)) = false := by
      rw [inGroup_blank (by decide), ih hu hrest]
    rw [join_cons_cons, inGroup_append closed hspace, ht]

theorem tokensOf_join {ts : List (List Char)} (h : WellCut ts) : tokensOf (join ts) = ts := by
  induction ts with
  | nil => rfl
  | cons t ts ih =>
    cases ts with
    | nil => simpa [join] using h.single t (by simp)
    | cons u ts =>
      obtain ⟨⟨closed, hu⟩, hrest⟩ := List.isChain_cons_cons.mp h.apart
      rw [join_cons_cons, tokensOf_append closed (by decide) (inGroup_join hu hrest),
        ih h.of_cons, h.single t (by simp)]
      rfl

/-! ## The tokens of a text -/

theorem separates_iff {q : Quote} {c : Char} {cs : List Char} :
    separates q c cs = true ↔ q = .outside ∧ isBlank c = true ∧ inGroup cs = false := by
  simp [separates, and_assoc]

theorem split_cons_cut {c : Char} {cs : List Char} (cut : separates .outside c cs = true) :
    split .outside (c :: cs) = ([], tokensOf cs) := by
  simp only [split, if_pos cut]
  rfl

theorem split_cons_keep {q : Quote} {c : Char} {cs : List Char}
    (keep : ¬ separates q c cs = true) :
    split q (c :: cs) = (c :: (split (q.next c) cs).1, (split (q.next c) cs).2) := by
  simp only [split, if_neg keep]

/-- Up to the first cut the look ahead sees what it sees in the whole text. -/
theorem closesFirst_split (k : Bracket) (q : Quote) (text : List Char) :
    k.closesFirst q (split q text).1 = k.closesFirst q text := by
  induction text generalizing q with
  | nil => rfl
  | cons c cs ih =>
    by_cases hcut : separates q c cs = true
    · obtain ⟨rfl, blank, hcs⟩ := separates_iff.mp hcut
      rw [split_cons_cut hcut, k.closesFirst_blank blank, inGroup_eq_false.mp hcs k]
      rfl
    · rw [split_cons_keep hcut]
      cases q with
      | outside => simp only [Bracket.closesFirst, ih]
      | inside => simp only [Bracket.closesFirst, ih]
      | escaped => simp only [Bracket.closesFirst, ih]

theorem split_split (q : Quote) (text : List Char) :
    split q (split q text).1 = ((split q text).1, []) := by
  induction text generalizing q with
  | nil => rfl
  | cons c cs ih =>
    by_cases hcut : separates q c cs = true
    · obtain ⟨rfl, -, -⟩ := separates_iff.mp hcut
      rw [split_cons_cut hcut]
      rfl
    · rw [split_cons_keep hcut]
      have hkeep : ¬ separates q c (split (q.next c) cs).1 = true := by
        intro h
        obtain ⟨rfl, blank, hin⟩ := separates_iff.mp h
        rw [next_of_isBlank blank,
          inGroup_congr fun k => closesFirst_split k .outside cs] at hin
        exact hcut (separates_iff.mpr ⟨rfl, blank, hin⟩)
      rw [split_cons_keep hkeep, ih]

theorem wellCut_consToken {t : List Char} {ts : List (List Char)}
    (whole : split .outside t = (t, [])) (h : WellCut ts) (hts : ∀ u ∈ ts.head?, Apart t u) :
    WellCut (consToken t ts) := by
  by_cases ht : t = []
  · subst ht
    exact h
  · have hcons : ∀ us, consToken t us = t :: us := by
      intro us
      simp [consToken, ht]
    rw [hcons]
    refine ⟨?_, h.apart.cons hts⟩
    intro u hu
    rcases List.mem_cons.mp hu with rfl | hu
    · rw [tokensOf, whole]
      exact hcons []
    · exact h.single u hu

/-- The cuts keep the pieces apart, and what follows the last of them is cut in the same way. -/
theorem split_wellCut (q : Quote) (text : List Char) :
    WellCut (split q text).2 ∧ ∀ u ∈ (split q text).2.head?,
      q.after (split q text).1 = .outside ∧ inGroup u = false := by
  induction text generalizing q with
  | nil => exact ⟨⟨by simp [split], by simp [split]⟩, by simp [split]⟩
  | cons c cs ih =>
    by_cases hcut : separates q c cs = true
    · obtain ⟨rfl, blank, hcs⟩ := separates_iff.mp hcut
      obtain ⟨hrest, hhead⟩ := ih .outside
      rw [split_cons_cut hcut]
      refine ⟨wellCut_consToken (split_split .outside cs) hrest hhead, ?_⟩
      intro u hu
      refine ⟨rfl, ?_⟩
      by_cases ht : (split .outside cs).1 = []
      · simp only [tokensOf, consToken, ht] at hu
        exact (hhead u hu).2
      · simp only [tokensOf, consToken, List.isEmpty_iff, ht, if_false, List.head?_cons,
          Option.mem_def, Option.some.injEq] at hu
        rw [← hu, inGroup_congr fun k => closesFirst_split k .outside cs, hcs]
    · rw [split_cons_keep hcut]
      exact ih (q.next c)

theorem wellCut_tokensOf (text : List Char) : WellCut (tokensOf text) :=
  wellCut_consToken (split_split .outside text) (split_wellCut .outside text).1
    (split_wellCut .outside text).2

end PageNav.Path
