import Mathlib.Data.List.Induction
import PageNav.Proofs.Uncut

/-!
# Where tokens stand

The tokens of a text stand in it in their order, with blanks around them. So of a run of blanks in
the text it can be said whether it is inside one token or between two of them.
-/

namespace PageNav.Path

open Text

/-! ## Tokens in their text -/

/-- The tokens stand in the text in this order, with blanks between and around them. -/
inductive Laid : List (List Char) → List Char → Prop
  | blank {w : List Char} (blank : ∀ c ∈ w, isBlank c = true) : Laid [] w
  | token {w t rest : List Char} {ts : List (List Char)} (blank : ∀ c ∈ w, isBlank c = true)
      (filled : t ≠ []) (apart : ∀ c ∈ rest.head?, isBlank c = true) (later : Laid ts rest) :
      Laid (t :: ts) (w ++ (t ++ rest))

theorem Laid.cons_blank {ts : List (List Char)} {text : List Char} (h : Laid ts text) {c : Char}
    (hc : isBlank c = true) : Laid ts (c :: text) := by
  cases h with
  | blank blank => exact .blank (List.forall_mem_cons.mpr ⟨hc, blank⟩)
  | token blank filled apart later =>
    exact .token (List.forall_mem_cons.mpr ⟨hc, blank⟩) filled apart later

theorem Laid.append_blank {ts : List (List Char)} {text : List Char} (h : Laid ts text) {c : Char}
    (hc : isBlank c = true) : Laid ts (text ++ [c]) := by
  induction h with
  | blank blank =>
    exact .blank (List.forall_mem_append.mpr ⟨blank, by simpa using hc⟩)
  | @token w t rest ts blank filled apart later ih =>
    have hapart : ∀ d ∈ (rest ++ [c]).head?, isBlank d = true := by
      cases rest with
      | nil => simpa using hc
      | cons d rest => exact apart
    rw [List.append_assoc, List.append_assoc]
    exact .token blank filled hapart ih

theorem laid_consToken {t rest : List Char} {ts : List (List Char)}
    (apart : ∀ c ∈ rest.head?, isBlank c = true) (later : Laid ts rest) :
    Laid (consToken t ts) (t ++ rest) := by
  by_cases ht : t = []
  · subst ht
    exact later
  · have hcons : consToken t ts = t :: ts := by simp [consToken, ht]
    rw [hcons]
    exact .token (w := []) (fun c hc => absurd hc List.not_mem_nil) ht apart later

theorem split_laid (q : Quote) (text : List Char) :
    ∃ rest, text = (split q text).1 ++ rest ∧ Laid (split q text).2 rest ∧
      ∀ c ∈ rest.head?, isBlank c = true := by
  induction text generalizing q with
  | nil => exact ⟨[], rfl, .blank (by simp), by simp⟩
  | cons c cs ih =>
    by_cases hcut : separates q c cs = true
    · obtain ⟨rfl, blank, -⟩ := separates_iff.mp hcut
      obtain ⟨rest, htext, later, apart⟩ := ih .outside
      have hlaid : Laid (tokensOf cs) cs := by
        have h := laid_consToken (t := (split .outside cs).1) apart later
        rwa [← htext] at h
      rw [split_cons_cut hcut]
      refine ⟨c :: cs, rfl, hlaid.cons_blank blank, fun d hd => ?_⟩
      obtain rfl := Option.some.inj hd
      exact blank
    · obtain ⟨rest, htext, later, apart⟩ := ih (q.next c)
      rw [split_cons_keep hcut]
      exact ⟨rest, congrArg (c :: ·) htext, later, apart⟩

theorem laid_tokensOf (text : List Char) : Laid (tokensOf text) text := by
  obtain ⟨rest, htext, later, apart⟩ := split_laid .outside text
  have h := laid_consToken (t := (split .outside text).1) apart later
  rwa [← htext] at h

/-! ## Inside a token or between two -/

/-- The text `p ++ w ++ r` has a token that holds `w` at this place. -/
def InToken (p w r : List Char) : Prop :=
  ∃ before after front x y back, tokensOf (p ++ w ++ r) = before ++ (x ++ w ++ y) :: after ∧
    p = front ++ x ∧ Laid before front ∧ r = y ++ back ∧ Laid after back

/-- The tokens of the text `p ++ w ++ r` stand in `p` or in `r`. -/
def Separated (p w r : List Char) : Prop :=
  ∃ before after, tokensOf (p ++ w ++ r) = before ++ after ∧ Laid before p ∧ Laid after r

/-- Between `p` and `r` the text has a run of blanks outside quotes, with no blank before or after. -/
structure Run (p w r : List Char) : Prop where
  filled : w ≠ []
  blank : ∀ c ∈ w, isBlank c = true
  outside : Closed p
  left : ∀ c ∈ p.getLast?, isBlank c = false
  right : ∀ c ∈ r.head?, isBlank c = false

theorem tokensOf_cut {p r : List Char} {c : Char} (closed : Closed p)
    (cut : separates .outside c r = true) : tokensOf (p ++ c :: r) = tokensOf p ++ tokensOf r := by
  obtain ⟨-, blank, ungrouped⟩ := separates_iff.mp cut
  exact tokensOf_append closed blank ungrouped

theorem inGroup_blanks {w : List Char} (blank : ∀ c ∈ w, isBlank c = true) (r : List Char) :
    inGroup (w ++ r) = inGroup r := by
  induction w with
  | nil => rfl
  | cons c w ih =>
    obtain ⟨hc, hw⟩ := List.forall_mem_cons.mp blank
    rw [List.cons_append, inGroup_blank hc, ih hw]

theorem tokensOf_blanks {w r : List Char} (blank : ∀ c ∈ w, isBlank c = true)
    (ungrouped : inGroup r = false) : tokensOf (w ++ r) = tokensOf r := by
  induction w with
  | nil => rfl
  | cons c w ih =>
    obtain ⟨hc, hw⟩ := List.forall_mem_cons.mp blank
    have hcut : separates .outside c (w ++ r) = true :=
      separates_iff.mpr ⟨rfl, hc, by rw [inGroup_blanks hw, ungrouped]⟩
    have h := tokensOf_cut (p := []) rfl hcut
    rw [List.nil_append] at h
    rw [List.cons_append, h, ih hw]
    rfl

theorem Run.separated {p w r : List Char} (run : Run p w r) (ungrouped : inGroup r = false) :
    Separated p w r := by
  refine ⟨tokensOf p, tokensOf r, ?_, laid_tokensOf p, laid_tokensOf r⟩
  obtain ⟨c, w, rfl⟩ := List.exists_cons_of_ne_nil run.filled
  obtain ⟨hc, hw⟩ := List.forall_mem_cons.mp run.blank
  have hcut : separates .outside c (w ++ r) = true :=
    separates_iff.mpr ⟨rfl, hc, by rw [inGroup_blanks hw, ungrouped]⟩
  rw [List.append_assoc, List.cons_append, tokensOf_cut run.outside hcut,
    tokensOf_blanks hw ungrouped]

/-- The last piece of `p` that is not cut when `rest` follows it. -/
theorem exists_last_cut (p rest : List Char) :
    ∃ front x, p = front ++ x ∧ Uncut (Quote.outside.after front) x rest ∧
      (front = [] ∨ ∃ a c, front = a ++ [c] ∧
        separates (Quote.outside.after a) c (x ++ rest) = true) := by
  induction p using List.reverseRecOn generalizing rest with
  | nil => exact ⟨[], [], rfl, trivial, .inl rfl⟩
  | append_singleton p c ih =>
    by_cases hcut : separates (Quote.outside.after p) c rest = true
    · exact ⟨p ++ [c], [], by simp, trivial, .inr ⟨p, c, rfl, hcut⟩⟩
    · obtain ⟨front, x, rfl, uncut, hfront⟩ := ih (c :: rest)
      rw [Quote.after_append] at hcut
      refine ⟨front, x ++ [c], by simp, uncut_append.mpr ⟨uncut, hcut, trivial⟩, ?_⟩
      rw [List.append_assoc]
      exact hfront

theorem exists_token_of_uncut {x w r : List Char} (filled : w ≠ [])
    (uncut : Uncut .outside (x ++ w) r) :
    ∃ y back after, tokensOf (x ++ w ++ r) = (x ++ w ++ y) :: after ∧ r = y ++ back ∧
      Laid after back := by
  obtain ⟨back, hr, later, -⟩ := split_laid (Quote.outside.after (x ++ w)) r
  have hxw : x ++ w ≠ [] := fun h => filled (List.append_eq_nil_iff.mp h).2
  exact ⟨_, back, _, tokensOf_uncut_append hxw uncut, hr, later⟩

theorem inToken_of_uncut {p w r : List Char} (filled : w ≠ [])
    (uncut : Uncut (Quote.outside.after p) w r) : InToken p w r := by
  obtain ⟨front, x, rfl, hx, hfront⟩ := exists_last_cut p (w ++ r)
  rw [Quote.after_append] at uncut
  have hxw := uncut_append.mpr ⟨hx, uncut⟩
  rcases hfront with rfl | ⟨a, c, rfl, hcut⟩
  · obtain ⟨y, back, after, htokens, hr, later⟩ := exists_token_of_uncut filled hxw
    exact ⟨[], after, [], x, y, back, htokens, rfl, .blank (by simp), hr, later⟩
  · obtain ⟨closed, blank, -⟩ := separates_iff.mp hcut
    have houtside : Quote.outside.after (a ++ [c]) = .outside := by
      rw [Quote.after_append, closed]
      exact next_of_isBlank blank
    rw [houtside] at hxw
    rw [closed, ← List.append_assoc] at hcut
    obtain ⟨y, back, after, htokens, hr, later⟩ := exists_token_of_uncut filled hxw
    refine ⟨tokensOf a, after, a ++ [c], x, y, back, ?_, rfl,
      (laid_tokensOf a).append_blank blank, hr, later⟩
    have hall := tokensOf_cut closed hcut
    rw [htokens] at hall
    rw [← hall]
    simp

theorem inToken_of_not_closed {p r : List Char} (c : Char) (h : ¬ Closed p) : InToken p [c] r :=
  inToken_of_uncut (List.cons_ne_nil c [])
    ⟨fun hcut => h (separates_iff.mp hcut).1, trivial⟩

theorem uncut_blanks {w r : List Char} (blank : ∀ c ∈ w, isBlank c = true)
    (grouped : inGroup r = true) : Uncut .outside w r := by
  induction w with
  | nil => trivial
  | cons c w ih =>
    obtain ⟨hc, hw⟩ := List.forall_mem_cons.mp blank
    refine ⟨fun hcut => ?_, ?_⟩
    · have hno := (separates_iff.mp hcut).2.2
      rw [inGroup_blanks hw, grouped] at hno
      exact absurd hno (by decide)
    · rw [next_of_isBlank hc]
      exact ih hw

/-! ## Either inside or between -/

/-- How many characters of a text are no blanks. -/
def ink (text : List Char) : Nat := text.countP (!isBlank ·)

@[simp] theorem ink_append (a b : List Char) : ink (a ++ b) = ink a + ink b :=
  List.countP_append

theorem ink_eq_zero {text : List Char} : ink text = 0 ↔ ∀ c ∈ text, isBlank c = true := by
  simp [ink, List.countP_eq_zero]

theorem Laid.ink_eq {ts : List (List Char)} {text : List Char} (h : Laid ts text) :
    ink text = ink ts.flatten := by
  induction h with
  | blank blank => exact ink_eq_zero.mpr blank
  | token blank filled apart later ih =>
    rw [ink_append, ink_append, ink_eq_zero.mpr blank, ih, List.flatten_cons, ink_append,
      Nat.zero_add]

theorem ink_pos_of_mem {text t : List Char} (mem : t ∈ tokensOf text) : 0 < ink t := by
  rw [Nat.pos_iff_ne_zero, Ne, ink_eq_zero]
  intro blank
  have hnone := tokensOf_blanks (r := []) blank rfl
  rw [List.append_nil, (wellCut_tokensOf text).single t mem] at hnone
  exact List.cons_ne_nil t [] hnone

theorem eq_nil_of_ink {text : List Char} {ts : List (List Char)}
    (tokens : ∀ t ∈ ts, t ∈ tokensOf text) (blank : ink ts.flatten = 0) : ts = [] := by
  cases ts with
  | nil => rfl
  | cons t ts =>
    have hpos := ink_pos_of_mem (tokens t List.mem_cons_self)
    rw [List.flatten_cons, ink_append] at blank
    omega

theorem Laid.head? {t text : List Char} {ts : List (List Char)} (h : Laid (t :: ts) text)
    (ht : ∀ c ∈ text.head?, isBlank c = false) : ∀ c ∈ t.head?, isBlank c = false := by
  cases h with
  | @token w t rest ts blank filled apart later =>
    cases w with
    | nil =>
      obtain ⟨c, cs, rfl⟩ := List.exists_cons_of_ne_nil filled
      exact ht
    | cons c w =>
      have hblank := blank c List.mem_cons_self
      rw [ht c rfl] at hblank
      exact absurd hblank (by decide)

theorem Laid.ne_nil {t text : List Char} {ts : List (List Char)} (h : Laid (ts ++ [t]) text) :
    text ≠ [] := by
  cases ts with
  | nil =>
    cases h with
    | token blank filled apart later => simp [filled]
  | cons u ts =>
    cases h with
    | token blank filled apart later => simp [filled]

theorem Laid.getLast? {t text : List Char} {ts : List (List Char)} (h : Laid (ts ++ [t]) text)
    (ht : ∀ c ∈ text.getLast?, isBlank c = false) : ∀ c ∈ t.getLast?, isBlank c = false := by
  induction ts generalizing text with
  | nil =>
    cases h with
    | @token w t rest ts blank filled apart later =>
      cases later with
      | blank hrest =>
        have hlast : rest = [] := by
          by_contra hne
          have hend := ht (rest.getLast hne)
            (by simp [List.getLast?_append, List.getLast?_eq_some_getLast hne])
          rw [hrest _ (List.getLast_mem hne)] at hend
          exact absurd hend (by decide)
        rw [hlast, List.append_nil, List.getLast?_append_of_ne_nil _ filled] at ht
        exact ht
  | cons u ts ih =>
    cases h with
    | @token w u rest ts blank filled apart later =>
      have hrest : rest ≠ [] := later.ne_nil
      rw [List.getLast?_append_of_ne_nil _ (by simp [hrest]),
        List.getLast?_append_of_ne_nil _ hrest] at ht
      exact ih later ht

theorem Run.left_eq_nil {p w r front x : List Char} (run : Run p w r) (hp : p = front ++ x)
    (blank : ink x = 0) : x = [] := by
  subst hp
  by_contra hne
  have hlast := run.left (x.getLast hne) (by simp [List.getLast?_eq_some_getLast hne])
  rw [ink_eq_zero.mp blank _ (List.getLast_mem hne)] at hlast
  exact absurd hlast (by decide)

theorem Run.right_eq_nil {p w r y back : List Char} (run : Run p w r) (hr : r = y ++ back)
    (blank : ink y = 0) : y = [] := by
  subst hr
  cases y with
  | nil => rfl
  | cons c y =>
    have hfirst := run.right c rfl
    rw [ink_eq_zero.mp blank c List.mem_cons_self] at hfirst
    exact absurd hfirst (by decide)

theorem Run.not_first {p w r y : List Char} {ts : List (List Char)} (run : Run p w r) :
    ¬ Laid ((w ++ y) :: ts) r := by
  intro h
  obtain ⟨c, w, rfl⟩ := List.exists_cons_of_ne_nil run.filled
  have hfirst := h.head? run.right c rfl
  rw [run.blank c List.mem_cons_self] at hfirst
  exact absurd hfirst (by decide)

theorem Run.not_last {p w r x : List Char} {ts : List (List Char)} (run : Run p w r) :
    ¬ Laid (ts ++ [x ++ w]) p := by
  intro h
  have hlast := h.getLast? run.left (w.getLast run.filled)
    (by simp [List.getLast?_eq_some_getLast run.filled])
  rw [run.blank _ (List.getLast_mem run.filled)] at hlast
  exact absurd hlast (by decide)

/-- No run of blanks is inside a token and between two of them at once. -/
theorem Run.not_inToken {p w r : List Char} (run : Run p w r) (separated : Separated p w r) :
    ¬ InToken p w r := by
  rintro ⟨before, after, front, x, y, back, htokens, hp, hfront, hr, hback⟩
  obtain ⟨left, right, hcut, hleft, hright⟩ := separated
  have hall : ∀ t ∈ left ++ right, t ∈ tokensOf (p ++ w ++ r) := fun t ht => hcut ▸ ht
  have hinkp : ink before.flatten + ink x = ink left.flatten := by
    rw [← hfront.ink_eq, ← hleft.ink_eq, hp, ink_append]
  have hinkr : ink y + ink after.flatten = ink right.flatten := by
    rw [← hback.ink_eq, ← hright.ink_eq, hr, ink_append]
  -- Tokens that stand in `p` by one account and in `r` by the other would have no ink.
  rcases List.append_eq_append_iff.mp (hcut.symm.trans htokens) with
    ⟨a, rfl, rfl⟩ | ⟨a, rfl, ha⟩
  · rw [List.flatten_append, ink_append] at hinkp
    obtain rfl : a = [] :=
      eq_nil_of_ink (fun t ht => hall t (by simp [ht])) (by omega)
    obtain rfl : x = [] := run.left_eq_nil hp (by omega)
    exact run.not_first hright
  · cases a with
    | nil =>
      rw [List.nil_append] at ha
      subst ha
      rw [List.append_nil] at hinkp
      obtain rfl : x = [] := run.left_eq_nil hp (by omega)
      exact run.not_first hright
    | cons m a =>
      rw [List.cons_append] at ha
      obtain ⟨rfl, rfl⟩ := List.cons.inj ha
      rw [List.flatten_append, ink_append] at hinkr
      obtain rfl : a = [] :=
        eq_nil_of_ink (fun t ht => hall t (by simp [ht])) (by omega)
      obtain rfl : y = [] := run.right_eq_nil hr (by omega)
      rw [List.append_nil] at hleft
      exact run.not_last hleft

theorem Run.inToken_iff {p w r : List Char} (run : Run p w r) :
    InToken p w r ↔ inGroup r = true := by
  constructor
  · intro inside
    by_contra h
    exact run.not_inToken (run.separated (Bool.not_eq_true _ ▸ h)) inside
  · intro grouped
    refine inToken_of_uncut run.filled ?_
    rw [run.outside]
    exact uncut_blanks run.blank grouped

theorem Run.separated_iff {p w r : List Char} (run : Run p w r) :
    Separated p w r ↔ ¬ inGroup r = true := by
  rw [← run.inToken_iff]
  refine ⟨run.not_inToken, fun h => run.separated ?_⟩
  rwa [run.inToken_iff, Bool.not_eq_true] at h

end PageNav.Path
