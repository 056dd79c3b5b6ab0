import PageNav.Proofs.Nesting
import PageNav.Proofs.Relative
import PageNav.Proofs.Uncut

/-!
# Selectors as paths

A selector may be used as a path. Some of its tokens may grow together then, but none is cut, and all
of them are selectors already, so that it is its own selector.
-/

namespace PageNav

open Text PageNav.Path

/-! ## Tests -/

theorem closed_of_no_quote {a : List Char} (h : '\'' ∉ a) : Closed a := by
  induction a with
  | nil => rfl
  | cons c a ih =>
    rw [List.mem_cons, not_or] at h
    rw [Closed, Quote.after_cons, next_of_ne_quote (Ne.symm h.1), ih h.2]

/-- A text that can be written in quotes as it is. -/
def Unescaped (text : List Char) : Prop := ∀ c ∈ text, c ≠ '\'' ∧ c ≠ '\\'

instance : DecidablePred Unescaped := fun text => List.decidableBAll _ text

theorem Unescaped.closed {text : List Char} (h : Unescaped text) : Closed text :=
  closed_of_no_quote fun hquote => (h _ hquote).1 rfl

theorem escapeChars_of_unescaped {text : List Char} (h : Unescaped text) :
    escapeChars text = text := by
  induction text with
  | nil => rfl
  | cons c cs ih =>
    obtain ⟨hc, hcs⟩ := List.forall_mem_cons.mp h
    simp [escapeChars, hc.1, hc.2, ih hcs]

namespace Selector

theorem whole_testOf {attr name : List Char} (hattr : ∀ c ∈ attr, isBlank c = false ∧ c ≠ '\'')
    (hname : Unescaped name) : Whole (testOf attr name) := by
  have hfront : Whole ('[' :: attr ++ ['=']) := by
    refine ⟨solid_of_no_blank ?_ _, closed_of_no_quote ?_⟩
    · have hblank : attr.any isBlank = false := by
        rw [List.any_eq_false]
        intro c hc
        rw [(hattr c hc).1]
        exact Bool.false_ne_true
      rw [List.cons_append, List.any_cons, List.any_append, hblank]
      decide
    · intro hquote
      simp only [List.cons_append, List.mem_cons, List.mem_append, List.not_mem_nil] at hquote
      rcases hquote with h | h | h | h
      · exact absurd h (by decide)
      · exact (hattr _ h).2 rfl
      · exact absurd h (by decide)
      · exact h
  have hback : Whole [']'] := ⟨solid_of_no_blank rfl _, rfl⟩
  have htest : testOf attr name = ('[' :: attr ++ ['=']) ++ quoted name ++ [']'] := by
    simp [testOf, quoted, escapeChars_of_unescaped hname]
  rw [htest]
  exact (hfront.append (whole_quoted name)).append hback

/-! ## Tokens that are selectors -/

/-- A text that starts like a selector. -/
def Settled (token : List Char) : Prop :=
  ∃ c ∈ token.head?, isLead c = true ∨ endsName c = true

theorem Settled.ne_nil {token : List Char} (h : Settled token) : token ≠ [] := by
  rintro rfl
  obtain ⟨c, hc, -⟩ := h
  exact absurd hc (by simp)

theorem Settled.append {token : List Char} (h : Settled token) (rest : List Char) :
    Settled (token ++ rest) := by
  obtain ⟨c, cs, rfl⟩ := List.exists_cons_of_ne_nil h.ne_nil
  exact h

theorem ofToken_settled (attr : List Char) {token : List Char} (h : Settled token) :
    ofToken attr token = token := by
  obtain ⟨c, cs, rfl⟩ := List.exists_cons_of_ne_nil h.ne_nil
  obtain ⟨c', hc', h⟩ := h
  obtain rfl := Option.some.inj hc'
  unfold ofToken
  rcases h with h | h <;> simp [h]

theorem settled_ofToken (attr : List Char) {token : List Char} (filled : token ≠ []) :
    Settled (ofToken attr token) := by
  obtain ⟨c, cs, rfl⟩ := List.exists_cons_of_ne_nil filled
  unfold ofToken
  simp only
  split
  · next h =>
    refine ⟨c, rfl, ?_⟩
    simpa [List.takeWhile_cons] using h
  · exact ⟨'[', rfl, .inl (by decide)⟩

/-- The name that a token turns into a test, if any, can be written in quotes as it is. -/
def Quotable (token : List Char) : Prop :=
  token.head?.any isLead = false → Unescaped (token.takeWhile (!endsName ·))

instance : DecidablePred Quotable := fun token =>
  inferInstanceAs (Decidable (token.head?.any isLead = false →
    Unescaped (token.takeWhile (!endsName ·))))

theorem ofToken_cases (attr : List Char) {token : List Char} (h : Quotable token) :
    ofToken attr token = token ∨ ∃ name rest, token = name ++ rest ∧ Unescaped name ∧
      ofToken attr token = testOf attr name ++ rest := by
  unfold ofToken
  simp only
  split
  · exact .inl rfl
  · next hname =>
    rw [Bool.or_eq_true, not_or, Bool.not_eq_true] at hname
    exact .inr ⟨_, _, List.takeWhile_append_dropWhile.symm, h hname.1, rfl⟩

section
variable {attr token : List Char} (hattr : ∀ c ∈ attr, isBlank c = false ∧ c ≠ '\'')
  (h : Quotable token)
include hattr h

theorem closed_ofToken (closed : Closed token) : Closed (ofToken attr token) := by
  rcases ofToken_cases attr h with heq | ⟨name, rest, rfl, hname, heq⟩
  · rwa [heq]
  · rw [Closed, Quote.after_append, hname.closed] at closed
    rw [heq]
    exact closed_append (whole_testOf hattr hname).closed closed

theorem uncut_ofToken (uncut : ∀ after, Uncut .outside token after) (after : List Char) :
    Uncut .outside (ofToken attr token) after := by
  rcases ofToken_cases attr h with heq | ⟨name, rest, rfl, hname, heq⟩
  · rw [heq]
    exact uncut after
  · have hrest := (uncut_append.mp (uncut after)).2
    have htest := whole_testOf hattr hname
    rw [hname.closed] at hrest
    rw [heq]
    refine uncut_append.mpr ⟨uncut_solid htest.solid _, ?_⟩
    rw [htest.closed]
    exact hrest

end

/-! ## Tokens of selectors -/

/-- Selectors of tokens: they start like selectors and are not cut, and only the last of them may
leave a quote open. -/
structure Compiled (selectors : List (List Char)) : Prop where
  settled : ∀ c ∈ selectors, Settled c
  uncut : ∀ c ∈ selectors, ∀ rest, Uncut .outside c rest
  closed : selectors.IsChain fun c _ => Closed c

theorem Compiled.of_cons {c : List Char} {cs : List (List Char)} (h : Compiled (c :: cs)) :
    Compiled cs :=
  ⟨fun d hd => h.settled d (List.mem_cons_of_mem _ hd),
    fun d hd => h.uncut d (List.mem_cons_of_mem _ hd), h.closed.tail⟩

theorem compiled_ofToken {attr : List Char} {text : List Char}
    (hattr : ∀ c ∈ attr, isBlank c = false ∧ c ≠ '\'')
    (htext : ∀ token ∈ tokensOf text, Quotable token) :
    Compiled ((tokensOf text).map (ofToken attr)) := by
  have hcut := wellCut_tokensOf text
  refine ⟨?_, ?_, ?_⟩
  · exact List.forall_mem_map.mpr fun token mem => settled_ofToken attr (hcut.ne_nil mem)
  · exact List.forall_mem_map.mpr fun token mem =>
      uncut_ofToken hattr (htext token mem) (uncut_of_mem_tokensOf mem)
  · rw [List.isChain_map]
    exact hcut.apart.imp_of_mem_imp fun token _ mem _ apart =>
      closed_ofToken hattr (htext token mem) apart.1

theorem join_append_cons (a b : List Char) (ts : List (List Char)) :
    join ((a ++ b) :: ts) = a ++ join (b :: ts) := by
  cases ts with
  | nil => simp [join]
  | cons t ts => rw [join_cons_cons, join_cons_cons, List.append_assoc]

theorem exists_join_cons (t : List Char) (ts : List (List Char)) :
    ∃ rest, join (t :: ts) = t ++ rest := by
  have h := join_append_cons t [] ts
  rw [List.append_nil] at h
  exact ⟨_, h⟩

/-- The tokens of the joined selectors are these selectors, of which some have grown together. -/
theorem Compiled.tokensOf_join {selectors : List (List Char)} (h : Compiled selectors) :
    (∀ token ∈ tokensOf (join selectors), Settled token) ∧
      join (tokensOf (join selectors)) = join selectors := by
  induction selectors with
  | nil => exact ⟨fun token mem => absurd mem List.not_mem_nil, rfl⟩
  | cons c cs ih =>
    have hc : Settled c := h.settled c List.mem_cons_self
    cases cs with
    | nil =>
      have hone := tokensOf_uncut_append hc.ne_nil (h.uncut c List.mem_cons_self [])
      rw [List.append_nil, split, List.append_nil] at hone
      have hjoin : join [c] = c := List.intercalate_singleton
      rw [hjoin, hone]
      exact ⟨List.forall_mem_singleton.mpr hc, hjoin⟩
    | cons d ds =>
      obtain ⟨hsettled, hjoin⟩ := ih h.of_cons
      have hd : Settled d := h.settled d (by simp)
      have hclosed : Closed c := (List.isChain_cons_cons.mp h.closed).1
      have hall := tokensOf_uncut_append hc.ne_nil
        (h.uncut c List.mem_cons_self (' ' :: join (d :: ds)))
      rw [hclosed] at hall
      -- The tokens of the later selectors, the first of which holds all of `d`.
      obtain ⟨t, ts, hsplit, htokens⟩ : ∃ t ts, split .outside (join (d :: ds)) = (t, ts) ∧
          tokensOf (join (d :: ds)) = t :: ts := by
        obtain ⟨rest, hrest⟩ := exists_join_cons d ds
        have hfirst := tokensOf_uncut_append hd.ne_nil (h.uncut d (by simp) rest)
        rw [hrest]
        exact ⟨_, _, split_uncut (h.uncut d (by simp) rest), hfirst⟩
      rw [htokens] at hsettled hjoin
      rw [join_cons_cons, hall]
      by_cases hcut : separates .outside ' ' (join (d :: ds)) = true
      · rw [split_cons_cut hcut, htokens, List.append_nil]
        refine ⟨List.forall_mem_cons.mpr ⟨hc, hsettled⟩, ?_⟩
        rw [join_cons_cons, hjoin]
      · have hspace : Quote.outside.next ' ' = .outside := rfl
        rw [split_cons_keep hcut, hspace, hsplit]
        refine ⟨List.forall_mem_cons.mpr ⟨hc.append _, fun token mem =>
          hsettled token (List.mem_cons_of_mem _ mem)⟩, ?_⟩
        change join ((c ++ ([' '] ++ t)) :: ts) = c ++ ([' '] ++ join (d :: ds))
        rw [join_append_cons, join_append_cons, hjoin]

end Selector

open Selector

/-- A selector is its own selector. The names in the path may not hold what ends a quoted text, and
the attribute nothing that cuts a token. -/
theorem ofPath_idempotent (attr path : String)
    (hattr : ∀ c ∈ attr.toList, isBlank c = false ∧ c ≠ '\'')
    (hpath : ∀ token ∈ tokensOf path.toList, Quotable token) :
    ofPath attr (ofPath attr path) = ofPath attr path := by
  obtain ⟨hsettled, hjoin⟩ := (compiled_ofToken hattr hpath).tokensOf_join
  have hsame : ∀ token ∈ tokensOf (join ((tokensOf path.toList).map (ofToken attr.toList))),
      ofToken attr.toList token = id token :=
    fun token mem => ofToken_settled _ (hsettled token mem)
  rw [ofPath, ofPath, String.toList_ofList, List.map_congr_left hsame, List.map_id, hjoin]

/-- Blanks that are kept, a quote that stays open and two selectors that become one token. -/
theorem selector_of_awkward_path :
    let path := "x y( :z) f:'it\\'s ( c"
    let selector := "[data-test='x'] [data-test='y( ']:z) [data-test='f']:'it\\'s ( c"
    (∀ c ∈ "data-test".toList, isBlank c = false ∧ c ≠ '\'') ∧
      (∀ token ∈ tokensOf path.toList, Quotable token) ∧
      tokens path = ["x", "y( :z)", "f:'it\\'s ( c"] ∧
      ofPath "data-test" path = selector ∧
      tokens selector = ["[data-test='x'] [data-test='y( ']:z)", "[data-test='f']:'it\\'s ( c"] ∧
      ofPath "data-test" selector = selector := by
  intro path selector
  have hplain : ∀ c ∈ "data-test".toList, isPlainChar c = true := List.all_eq_true.mp (by decide)
  have hattr : ∀ c ∈ "data-test".toList, isBlank c = false ∧ c ≠ '\'' := fun c hc =>
    ⟨(not_special_of_plain (hplain c hc)).1, (not_special_of_plain (hplain c hc)).2.1⟩
  have hpath : ∀ token ∈ tokensOf path.toList, Quotable token := by decide
  have hselector : ofPath "data-test" path = selector := by decide
  have hagain := ofPath_idempotent "data-test" path hattr hpath
  rw [hselector] at hagain
  exact ⟨hattr, hpath, by decide, hselector, by decide, hagain⟩

/-- A name with a quote in it ends the quoted text early. -/
example : ofPath "data-test" (ofPath "data-test" "a' b") ≠ ofPath "data-test" "a' b" := by decide

end PageNav
