import PageNav.Proofs.Plain

/-!
# Texts that are not cut

A text is uncut if none of its blanks separates tokens. A token is uncut whatever follows it, since a
group that is closed inside the token is closed there in every text.
-/

namespace PageNav

open Text

theorem Bracket.closesFirst_append_of_closes {k : Bracket} {q : Quote} {a : List Char}
    (h : k.closesFirst q a = true) (b : List Char) : k.closesFirst q (a ++ b) = true := by
  induction a generalizing q with
  | nil => exact absurd h (by simp [closesFirst])
  | cons c a ih =>
    cases q with
    | outside =>
      rw [closesFirst] at h
      rw [List.cons_append, closesFirst]
      split_ifs at h ⊢ with hopen hclose
      · rfl
      · exact ih h
    | inside => exact ih h
    | escaped => exact ih h

theorem inGroup_eq_true {rest : List Char} :
    inGroup rest = true ↔ ∃ k : Bracket, k.closesFirst .outside rest = true := by
  rw [← Bool.not_eq_false, inGroup_eq_false]
  simp

theorem inGroup_append_of_inGroup {a : List Char} (h : inGroup a = true) (b : List Char) :
    inGroup (a ++ b) = true := by
  obtain ⟨k, hk⟩ := inGroup_eq_true.mp h
  exact inGroup_eq_true.mpr ⟨k, Bracket.closesFirst_append_of_closes hk b⟩

namespace Path

/-- No character of the text separates tokens when `rest` follows it. -/
def Uncut : Quote → List Char → List Char → Prop
  | _, [], _ => True
  | q, c :: cs, rest => ¬ separates q c (cs ++ rest) = true ∧ Uncut (q.next c) cs rest

theorem uncut_append {q : Quote} {a b rest : List Char} :
    Uncut q (a ++ b) rest ↔ Uncut q a (b ++ rest) ∧ Uncut (q.after a) b rest := by
  induction a generalizing q with
  | nil => simp [Uncut]
  | cons c a ih =>
    simp only [List.cons_append, Uncut, Quote.after_cons, ih, List.append_assoc, and_assoc]

theorem split_uncut {q : Quote} {text rest : List Char} (h : Uncut q text rest) :
    split q (text ++ rest) =
      (text ++ (split (q.after text) rest).1, (split (q.after text) rest).2) := by
  induction text generalizing q with
  | nil => rfl
  | cons c cs ih =>
    rw [List.cons_append, split_cons_keep h.1, ih h.2]
    rfl

theorem tokensOf_uncut_append {text rest : List Char} (filled : text ≠ [])
    (uncut : Uncut .outside text rest) :
    tokensOf (text ++ rest) =
      (text ++ (split (Quote.outside.after text) rest).1) ::
        (split (Quote.outside.after text) rest).2 := by
  rw [tokensOf, split_uncut uncut]
  simp [consToken, filled]

theorem uncut_solid {q : Quote} {text : List Char} (h : Solid q text) (rest : List Char) :
    Uncut q text rest := by
  induction text generalizing q with
  | nil => trivial
  | cons c cs ih =>
    refine ⟨fun hcut => ?_, ih h.2⟩
    obtain ⟨hq, blank, -⟩ := separates_iff.mp hcut
    rw [h.1 hq] at blank
    exact absurd blank (by decide)

/-- What stands before the first cut is not cut there, whatever follows it instead. -/
theorem uncut_split (q : Quote) (text rest : List Char) : Uncut q (split q text).1 rest := by
  induction text generalizing q with
  | nil => trivial
  | cons c cs ih =>
    by_cases hcut : separates q c cs = true
    · obtain ⟨rfl, -, -⟩ := separates_iff.mp hcut
      rw [split_cons_cut hcut]
      trivial
    · rw [split_cons_keep hcut]
      refine ⟨fun hafter => ?_, ih _⟩
      obtain ⟨rfl, blank, hout⟩ := separates_iff.mp hafter
      rw [next_of_isBlank blank] at hout
      -- The group that the blank lies in is closed before the first cut.
      have hin : inGroup (split .outside cs).1 = true := by
        rw [inGroup_congr fun k => closesFirst_split k .outside cs, ← Bool.not_eq_false]
        exact fun hno => hcut (separates_iff.mpr ⟨rfl, blank, hno⟩)
      rw [inGroup_append_of_inGroup hin] at hout
      exact absurd hout (by decide)

theorem mem_consToken {t u : List Char} {ts : List (List Char)} (h : t ∈ consToken u ts) :
    t = u ∨ t ∈ ts := by
  unfold consToken at h
  split at h
  · exact .inr h
  · exact List.mem_cons.mp h

theorem exists_split_of_mem_split {q : Quote} {text t : List Char} (mem : t ∈ (split q text).2) :
    ∃ later, t = (split .outside later).1 := by
  induction text generalizing q with
  | nil => exact absurd mem List.not_mem_nil
  | cons c cs ih =>
    by_cases hcut : separates q c cs = true
    · obtain ⟨rfl, -, -⟩ := separates_iff.mp hcut
      rw [split_cons_cut hcut] at mem
      rcases mem_consToken mem with rfl | mem
      · exact ⟨cs, rfl⟩
      · exact ih mem
    · rw [split_cons_keep hcut] at mem
      exact ih mem

theorem exists_split_of_mem {text t : List Char} (mem : t ∈ tokensOf text) :
    ∃ later, t = (split .outside later).1 := by
  rcases mem_consToken mem with rfl | mem
  · exact ⟨text, rfl⟩
  · exact exists_split_of_mem_split mem

theorem uncut_of_mem_tokensOf {text t : List Char} (mem : t ∈ tokensOf text) (rest : List Char) :
    Uncut .outside t rest := by
  obtain ⟨later, rfl⟩ := exists_split_of_mem mem
  exact uncut_split .outside later rest

end Path

end PageNav
