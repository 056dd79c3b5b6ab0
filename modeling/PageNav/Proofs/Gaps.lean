import PageNav.Proofs.Placement
import PageNav.Proofs.Relative

/-!
# The gaps between tokens

A text is its tokens with blanks around them, and nothing of it is lost. A run of its tokens, written
with single spaces, is cut into the same tokens again, whatever quotes and brackets the text has.
-/

namespace PageNav.Path

open Text

/-! ## Tokens start with ink -/

theorem head?_split {cs : List Char} (ungrouped : inGroup cs = false) :
    ∀ c ∈ (split .outside cs).1.head?, isBlank c = false := by
  cases cs with
  | nil => simp [split]
  | cons d ds =>
    by_cases hcut : separates .outside d ds = true
    · rw [split_cons_cut hcut]
      simp
    · rw [split_cons_keep hcut]
      intro c hc
      obtain rfl := Option.some.inj hc
      by_contra hblank
      rw [Bool.not_eq_false] at hblank
      rw [inGroup_blank hblank] at ungrouped
      exact hcut (separates_iff.mpr ⟨rfl, hblank, ungrouped⟩)

theorem head?_of_mem_split {q : Quote} {text t : List Char} (mem : t ∈ (split q text).2) :
    ∀ c ∈ t.head?, isBlank c = false := by
  induction text generalizing q with
  | nil => exact absurd mem List.not_mem_nil
  | cons c cs ih =>
    by_cases hcut : separates q c cs = true
    · obtain ⟨rfl, -, ungrouped⟩ := separates_iff.mp hcut
      rw [split_cons_cut hcut] at mem
      rcases mem_consToken mem with rfl | mem
      · exact head?_split ungrouped
      · exact ih mem
    · rw [split_cons_keep hcut] at mem
      exact ih mem

theorem mem_of_mem_tail_consToken {t u : List Char} {ts : List (List Char)}
    (h : t ∈ (consToken u ts).tail) : t ∈ ts := by
  unfold consToken at h
  split at h
  · exact List.mem_of_mem_tail h
  · exact h

theorem head?_of_mem_tail {text t : List Char} (mem : t ∈ (tokensOf text).tail) :
    ∀ c ∈ t.head?, isBlank c = false :=
  head?_of_mem_split (mem_of_mem_tail_consToken mem)

/-! ## Gaps -/

/-- Tokens that stand in a text have gaps between them, if no token but the first starts with a
blank. -/
theorem Laid.exists_gaps {ts : List (List Char)} {text : List Char} (h : Laid ts text)
    (starts : ∀ t ∈ ts.tail, ∀ c ∈ t.head?, isBlank c = false) :
    ∃ (first : List Char) (gaps : List (List Char)), gaps.length = ts.length ∧
      text = first ++ (List.zipWith (· ++ ·) ts gaps).flatten ∧
      (∀ gap ∈ first :: gaps, ∀ c ∈ gap, isBlank c = true) ∧ ∀ gap ∈ gaps.dropLast, gap ≠ [] := by
  induction h with
  | @blank w blank => exact ⟨w, [], rfl, by simp, by simpa using blank, by simp⟩
  | @token w t rest ts blank filled apart later ih =>
    obtain ⟨first, gaps, hlength, hrest, hblank, hgaps⟩ :=
      ih fun u hu => starts u (List.mem_of_mem_tail hu)
    refine ⟨w, first :: gaps, by simp [hlength], by simp [hrest],
      List.forall_mem_cons.mpr ⟨blank, hblank⟩, ?_⟩
    cases gaps with
    | nil => simp
    | cons gap gaps =>
      rw [List.dropLast_cons_cons]
      refine List.forall_mem_cons.mpr ⟨?_, hgaps⟩
      -- Without a gap the next token would start with the blank that follows `t`.
      rintro rfl
      have hpos : 0 < ts.length := by rw [← hlength]; exact Nat.succ_pos _
      obtain ⟨u, us, rfl⟩ := List.exists_cons_of_length_pos hpos
      have hu : u ≠ [] := by
        rintro rfl
        cases later with
        | token _ filled => exact filled rfl
      obtain ⟨c, cs, rfl⟩ := List.exists_cons_of_ne_nil hu
      have hc : isBlank c = true := apart c (by simp [hrest])
      rw [starts _ List.mem_cons_self c rfl] at hc
      exact absurd hc (by decide)

theorem tokensOf_eq_nil_iff {text : List Char} :
    tokensOf text = [] ↔ ∀ c ∈ text, isBlank c = true := by
  constructor
  · intro h
    have hlaid := laid_tokensOf text
    rw [h] at hlaid
    cases hlaid with
    | blank blank => exact blank
  · intro blank
    have hnone := tokensOf_blanks (r := []) blank rfl
    rwa [List.append_nil] at hnone

/-! ## Runs of tokens -/

theorem toList_join_zipWith (ts gaps : List (List Char)) :
    (String.join (List.zipWith (· ++ ·) (ts.map String.ofList) (gaps.map String.ofList))).toList =
      (List.zipWith (· ++ ·) ts gaps).flatten := by
  rw [String.toList_join, List.flatMap_def, List.map_zipWith, List.zipWith_map]
  simp

theorem tokensOf_join_of_infix {text : List Char} {run : List (List Char)}
    (h : run <:+: tokensOf text) : tokensOf (join run) = run := by
  obtain ⟨before, after, h⟩ := h
  have hall := wellCut_tokensOf text
  rw [← h] at hall
  exact tokensOf_join hall.left_of_append.right_of_append

/-- A text is what its tokens are with blanks around and between them. Each token but the first starts
with no blank. Tokens that follow each other in the text are tokens again when they are written with
single spaces. -/
theorem tokens_between_gaps (path : String) :
    (∃ first gaps, gaps.length = (tokens path).length ∧
      path = first ++ String.join (List.zipWith (· ++ ·) (tokens path) gaps) ∧
      (∀ gap ∈ first :: gaps, allBlank gap = true) ∧ ∀ gap ∈ gaps.dropLast, gap ≠ "") ∧
    (∀ token ∈ tokens path, token ≠ "") ∧
    (∀ token ∈ (tokens path).tail, ∀ c ∈ token.toList.head?, isBlank c = false) ∧
    (tokens path = [] ↔ allBlank path = true) ∧
    ∀ run, run <:+: tokens path → tokens (" ".intercalate run) = run := by
  have hgap : ∀ gap : List Char, allBlank (String.ofList gap) = true ↔ ∀ c ∈ gap, isBlank c = true := by
    intro gap
    rw [allBlank, String.toList_ofList, List.all_eq_true]
  refine ⟨?_, ?_, ?_, ?_, ?_⟩
  · obtain ⟨first, gaps, hlength, htext, hblank, hgaps⟩ :=
      (laid_tokensOf path.toList).exists_gaps fun t => head?_of_mem_tail
    refine ⟨String.ofList first, gaps.map String.ofList, by simp [tokens, hlength], ?_, ?_, ?_⟩
    · apply String.toList_inj.mp
      rw [String.toList_append, String.toList_ofList, tokens, toList_join_zipWith]
      exact htext
    · rw [← List.map_cons, List.forall_mem_map]
      exact fun gap hmem => (hgap gap).mpr (hblank gap hmem)
    · rw [← List.map_dropLast, List.forall_mem_map]
      intro gap hmem
      simpa using hgaps gap hmem
  · rw [tokens, List.forall_mem_map]
    intro t ht
    simpa using (wellCut_tokensOf path.toList).ne_nil ht
  · rw [tokens, ← List.map_tail, List.forall_mem_map]
    intro t ht
    rw [String.toList_ofList]
    exact head?_of_mem_tail ht
  · rw [tokens, List.map_eq_nil_iff, tokensOf_eq_nil_iff, allBlank, List.all_eq_true]
  · intro run h
    have hchars : run.map String.toList <:+: tokensOf path.toList := by
      simpa [tokens, List.map_map, Function.comp_def] using h.map String.toList
    have hjoin : (" ".intercalate run).toList = join (run.map String.toList) := by
      rw [String.toList_intercalate]
      rfl
    rw [tokens, hjoin, tokensOf_join_of_infix hchars]
    simp

/-- A text whose first token starts with a blank, as its groups are closed and never opened, and whose
last one has a quote that is not closed. -/
theorem tokens_of_unclosed_end :
    let path := " ] x )  y\t'z ("
    tokens path = [" ] x )", "y", "'z ("] ∧ ["y", "'z ("] <:+: tokens path ∧
      tokens "y 'z (" = ["y", "'z ("] := by
  intro path
  have htokens : tokens path = [" ] x )", "y", "'z ("] := by decide
  have hrun : ["y", "'z ("] <:+: tokens path := by
    rw [htokens]
    exact ⟨[" ] x )"], [], rfl⟩
  obtain ⟨-, -, -, -, hruns⟩ := tokens_between_gaps path
  exact ⟨htokens, hrun, hruns _ hrun⟩

end PageNav.Path
