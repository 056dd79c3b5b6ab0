import Mathlib.Logic.Basic
import Mathlib.Tactic.MkIffOfInductiveProp
import PageNav.Text.CamelCase

/-!
# Camel case is a normal form

A camel case name holds no separators and starts with no capital, and every such text is its own
camel case name. The letters of a text come back one for one, and what stands before a letter says
in which case.
-/

namespace PageNav.Text

/-! ## Capitals -/

section

variable {c : Char}

theorem isUpper_iff : c.isUpper = true ↔ 65 ≤ c.toNat ∧ c.toNat ≤ 90 :=
  decide_eq_true_iff

theorem isLower_iff : c.isLower = true ↔ 97 ≤ c.toNat ∧ c.toNat ≤ 122 :=
  Bool.and_eq_true_iff.trans (and_congr decide_eq_true_iff decide_eq_true_iff)

theorem isAlpha_iff : c.isAlpha = true ↔ c.isUpper = true ∨ c.isLower = true :=
  Bool.or_eq_true_iff

theorem toLower_of_not_isUpper (h : ¬ c.isUpper = true) : c.toLower = c :=
  dif_neg fun hc => h (decide_eq_true hc)

theorem toUpper_of_not_isLower (h : ¬ c.isLower = true) : c.toUpper = c :=
  dif_neg fun hc => h (isLower_iff.mpr hc)

theorem isLower_toLower (h : c.isUpper = true) : c.toLower.isLower = true := by
  have hall : ∀ n ≤ 90, 65 ≤ n → (Char.ofNat n).toLower.isLower = true := by decide
  obtain ⟨hlow, hhigh⟩ := isUpper_iff.mp h
  simpa using hall c.toNat hhigh hlow

theorem toLower_toUpper_of_isLower (h : c.isLower = true) : c.toUpper.toLower = c := by
  have hall : ∀ n ≤ 122, 97 ≤ n → (Char.ofNat n).toUpper.toLower = Char.ofNat n := by decide
  obtain ⟨hlow, hhigh⟩ := isLower_iff.mp h
  simpa using hall c.toNat hhigh hlow

theorem not_isUpper_of_isLower (h : c.isLower = true) : ¬ c.isUpper = true := by
  rw [isLower_iff] at h
  rw [isUpper_iff]
  omega

theorem not_isUpper_toLower (c : Char) : ¬ c.toLower.isUpper = true := by
  by_cases hc : c.isUpper = true
  · exact not_isUpper_of_isLower (isLower_toLower hc)
  · rwa [toLower_of_not_isUpper hc]

theorem toLower_toLower (c : Char) : c.toLower.toLower = c.toLower :=
  toLower_of_not_isUpper (not_isUpper_toLower c)

theorem toLower_toUpper (c : Char) : c.toUpper.toLower = c.toLower := by
  by_cases hc : c.isLower = true
  · rw [toLower_toUpper_of_isLower hc, toLower_of_not_isUpper (not_isUpper_of_isLower hc)]
  · rw [toUpper_of_not_isLower hc]

end

/-! ## Separators -/

/-- What may stand between the words of a key. -/
def wordSeparators : List Char :=
  ['_', '-', '.', ' ']

theorem isWordSeparator_iff {c : Char} : isWordSeparator c = true ↔ c ∈ wordSeparators := by
  simp only [isWordSeparator, wordSeparators, Bool.or_eq_true, decide_eq_true_eq, List.mem_cons,
    List.not_mem_nil, or_false, or_assoc]

theorem not_mem_wordSeparators_of_isAlpha {c : Char} (h : c.isAlpha = true) :
    c ∉ wordSeparators := by
  have hall : ∀ d ∈ wordSeparators, d.isAlpha = false := by simp [wordSeparators]
  intro hsep
  rw [hall c hsep] at h
  exact absurd h (by decide)

section

variable {c : Char} {cs : List Char} {capital : Bool}

theorem camelTail_separator (h : c ∈ wordSeparators) :
    camelTail capital (c :: cs) = camelTail true cs :=
  if_pos (isWordSeparator_iff.mpr h)

theorem camelTail_letter (h : c ∉ wordSeparators) :
    camelTail capital (c :: cs) = (if capital then c.toUpper else c) :: camelTail false cs :=
  if_neg (mt isWordSeparator_iff.mp h)

theorem camelChars_separator (h : c ∈ wordSeparators) : camelChars (c :: cs) = camelChars cs :=
  if_pos (isWordSeparator_iff.mpr h)

theorem camelChars_letter (h : c ∉ wordSeparators) :
    camelChars (c :: cs) = c.toLower :: camelTail false cs :=
  if_neg (mt isWordSeparator_iff.mp h)

end

/-! ## The letters apart from their case -/

/-- Every character that is no separator counts as a letter, a digit too. -/
def letters (text : List Char) : List Char :=
  text.filter (· ∉ wordSeparators)

theorem letters_separator {c : Char} (h : c ∈ wordSeparators) (cs : List Char) :
    letters (c :: cs) = letters cs :=
  List.filter_cons_of_neg (by simpa using h)

theorem letters_letter {c : Char} (h : c ∉ wordSeparators) (cs : List Char) :
    letters (c :: cs) = c :: letters cs :=
  List.filter_cons_of_pos (by simpa using h)

theorem map_toLower_camelTail (capital : Bool) (cs : List Char) :
    (camelTail capital cs).map Char.toLower = (letters cs).map Char.toLower := by
  induction cs generalizing capital with
  | nil => rfl
  | cons c cs ih =>
    by_cases hc : c ∈ wordSeparators
    · rw [camelTail_separator hc, letters_separator hc, ih]
    · rw [camelTail_letter hc, letters_letter hc, List.map_cons, List.map_cons, ih]
      split
      · rw [toLower_toUpper]
      · rfl

theorem map_toLower_camelChars (cs : List Char) :
    (camelChars cs).map Char.toLower = (letters cs).map Char.toLower := by
  induction cs with
  | nil => rfl
  | cons c cs ih =>
    by_cases hc : c ∈ wordSeparators
    · rw [camelChars_separator hc, letters_separator hc, ih]
    · rw [camelChars_letter hc, letters_letter hc, List.map_cons, List.map_cons,
        map_toLower_camelTail, toLower_toLower]

theorem toLower_iff {p : Char → Prop} (alphabet : ∀ c : Char, c.isAlpha = true → p c) (c : Char) :
    p c.toLower ↔ p c := by
  by_cases hc : c.isUpper = true
  · have hlower : c.toLower.isAlpha = true := isAlpha_iff.mpr (.inr (isLower_toLower hc))
    exact iff_of_true (alphabet _ hlower) (alphabet _ (isAlpha_iff.mpr (.inl hc)))
  · rw [toLower_of_not_isUpper hc]

theorem forall_mem_camelChars {p : Char → Prop} (alphabet : ∀ c : Char, c.isAlpha = true → p c)
    {cs : List Char} (h : ∀ c ∈ letters cs, p c) : ∀ c ∈ camelChars cs, p c := by
  intro c hc
  have hlower : c.toLower ∈ (letters cs).map Char.toLower := by
    rw [← map_toLower_camelChars]
    exact List.mem_map_of_mem hc
  obtain ⟨d, hd, heq⟩ := List.mem_map.mp hlower
  rw [← toLower_iff alphabet, ← heq, toLower_iff alphabet]
  exact h d hd

/-! ## Camel case names -/

structure IsCamel (text : List Char) : Prop where
  joined : ∀ c ∈ text, c ∉ wordSeparators
  small : ∀ c ∈ text.head?, c.isUpper = false

theorem joined_camelChars (cs : List Char) : ∀ c ∈ camelChars cs, c ∉ wordSeparators := by
  apply forall_mem_camelChars fun c => not_mem_wordSeparators_of_isAlpha
  intro c hc
  simpa using (List.mem_filter.mp hc).2

theorem small_camelChars (cs : List Char) : ∀ c ∈ (camelChars cs).head?, c.isUpper = false := by
  induction cs with
  | nil => exact fun c hc => absurd hc (by simp [camelChars])
  | cons d cs ih =>
    by_cases hd : d ∈ wordSeparators
    · rwa [camelChars_separator hd]
    · rw [camelChars_letter hd]
      rintro _ ⟨⟩
      exact Bool.eq_false_iff.mpr (not_isUpper_toLower d)

theorem isCamel_camelChars (cs : List Char) : IsCamel (camelChars cs) :=
  ⟨joined_camelChars cs, small_camelChars cs⟩

theorem camelTail_of_joined {cs : List Char} (joined : ∀ c ∈ cs, c ∉ wordSeparators) :
    camelTail false cs = cs := by
  induction cs with
  | nil => rfl
  | cons c cs ih =>
    obtain ⟨hc, hcs⟩ := List.forall_mem_cons.mp joined
    rw [camelTail_letter hc, ih hcs]
    rfl

theorem camelChars_eq_self_iff {cs : List Char} : camelChars cs = cs ↔ IsCamel cs := by
  constructor
  · intro h
    rw [← h]
    exact isCamel_camelChars cs
  · rintro ⟨joined, small⟩
    cases cs with
    | nil => rfl
    | cons c cs =>
      obtain ⟨hc, hcs⟩ := List.forall_mem_cons.mp joined
      have hsmall : ¬ c.isUpper = true := by simpa using small c rfl
      rw [camelChars_letter hc, toLower_of_not_isUpper hsmall, camelTail_of_joined hcs]

/-! ## The case of each letter -/

/-- The text goes on with the letter `c` after `before`, in which there are `i` letters. -/
@[mk_iff]
structure LetterAt (text before : List Char) (i : Nat) (c : Char) : Prop where
  stands : before ++ [c] <+: text
  letter : c ∉ wordSeparators
  number : (letters before).length = i

/-- Whether the next character stands right after a separator. -/
def endsWord (before : List Char) : Bool :=
  before.getLast?.any (· ∈ wordSeparators)

theorem not_letterAt_nil {before : List Char} {i : Nat} {c : Char} : ¬ LetterAt [] before i c :=
  fun h => absurd h.stands (by simp)

section

variable {c : Char} {text : List Char} {i : Nat} {p : List Char → Char → Prop}

theorem letterAt_cons_nil {d : Char} :
    LetterAt (c :: text) [] i d ↔ d = c ∧ c ∉ wordSeparators ∧ i = 0 := by
  rw [letterAt_iff, List.nil_append, List.cons_prefix_cons]
  constructor
  · rintro ⟨⟨rfl, -⟩, hletter, hnumber⟩
    exact ⟨rfl, hletter, hnumber.symm⟩
  · rintro ⟨rfl, hletter, rfl⟩
    exact ⟨⟨rfl, List.nil_prefix⟩, hletter, rfl⟩

theorem exists_letterAt_cons :
    (∃ before d, LetterAt (c :: text) before i d ∧ p before d) ↔
      (c ∉ wordSeparators ∧ i = 0) ∧ p [] c ∨
        ∃ before d, LetterAt (c :: text) (c :: before) i d ∧ p (c :: before) d := by
  constructor
  · rintro ⟨before, d, hat, hp⟩
    cases before with
    | nil =>
      obtain ⟨rfl, hfirst⟩ := letterAt_cons_nil.mp hat
      exact .inl ⟨hfirst, hp⟩
    | cons e before =>
      obtain ⟨rfl, -⟩ := List.cons_prefix_cons.mp hat.stands
      exact .inr ⟨before, d, hat, hp⟩
  · rintro (⟨hfirst, hp⟩ | ⟨before, d, hat, hp⟩)
    · exact ⟨[], c, letterAt_cons_nil.mpr ⟨rfl, hfirst⟩, hp⟩
    · exact ⟨c :: before, d, hat, hp⟩

theorem exists_letterAt_separator (h : c ∈ wordSeparators) :
    (∃ before d, LetterAt (c :: text) before i d ∧ p before d) ↔
      ∃ before d, LetterAt text before i d ∧ p (c :: before) d := by
  rw [exists_letterAt_cons]
  simp [letterAt_iff, letters_separator h, h]

theorem exists_letterAt_zero (h : c ∉ wordSeparators) :
    (∃ before d, LetterAt (c :: text) before 0 d ∧ p before d) ↔ p [] c := by
  rw [exists_letterAt_cons]
  simp [letterAt_iff, letters_letter h, h]

theorem exists_letterAt_succ (h : c ∉ wordSeparators) :
    (∃ before d, LetterAt (c :: text) before (i + 1) d ∧ p before d) ↔
      ∃ before d, LetterAt text before i d ∧ p (c :: before) d := by
  rw [exists_letterAt_cons]
  simp [letterAt_iff, letters_letter h]

end

theorem endsWord_concat (before : List Char) (c : Char) :
    endsWord (before ++ [c]) = decide (c ∈ wordSeparators) := by
  simp [endsWord]

theorem endsWord_cons {c : Char} {before : List Char} (h : before ≠ []) :
    endsWord (c :: before) = endsWord before := by
  rw [endsWord, endsWord, List.getLast?_cons_of_ne_nil h]

/-- The flag of the recursion says how the text before ends. -/
theorem getElem?_camelTail (before cs : List Char) (i : Nat) (c : Char) :
    (camelTail (endsWord before) cs)[i]? = some c ↔
      ∃ w d, LetterAt cs w i d ∧ c = if endsWord (before ++ w) then d.toUpper else d := by
  induction cs generalizing before i with
  | nil => simp [camelTail, not_letterAt_nil]
  | cons e cs ih =>
    have hnext := ih (before ++ [e])
    rw [endsWord_concat] at hnext
    simp only [List.append_assoc, List.singleton_append] at hnext
    by_cases he : e ∈ wordSeparators
    · rw [decide_eq_true he] at hnext
      rw [camelTail_separator he, hnext, exists_letterAt_separator he]
    · rw [decide_eq_false he] at hnext
      rw [camelTail_letter he]
      cases i with
      | zero =>
        rw [List.getElem?_cons_zero, exists_letterAt_zero he, List.append_nil, Option.some_inj]
        exact eq_comm
      | succ i => rw [List.getElem?_cons_succ, hnext, exists_letterAt_succ he]

theorem getElem?_camelChars (cs : List Char) (i : Nat) (c : Char) :
    (camelChars cs)[i]? = some c ↔
      ∃ before d, LetterAt cs before i d ∧
        c = if i = 0 then d.toLower else if endsWord before then d.toUpper else d := by
  induction cs generalizing i with
  | nil => simp [camelChars, not_letterAt_nil]
  | cons e cs ih =>
    by_cases he : e ∈ wordSeparators
    · rw [camelChars_separator he, ih, exists_letterAt_separator he]
      refine exists₂_congr fun before d => and_congr_right fun hat => ?_
      by_cases hi : i = 0
      · rw [if_pos hi, if_pos hi]
      · -- a later letter has more before it than this separator
        have hbefore : before ≠ [] := by
          rintro rfl
          exact hi hat.number.symm
        rw [endsWord_cons hbefore]
    · rw [camelChars_letter he]
      cases i with
      | zero =>
        rw [List.getElem?_cons_zero, exists_letterAt_zero he, Option.some_inj]
        exact eq_comm
      | succ i =>
        have htail := getElem?_camelTail [e] cs i c
        have hword : endsWord [e] = false := decide_eq_false he
        rw [hword] at htail
        rw [List.getElem?_cons_succ, htail, exists_letterAt_succ he]
        rfl

/-- The camel case name of a text is its own camel case name. It holds no separators and starts with
no capital, and apart from their case its letters are those of the text. A letter after the first
one is changed only right after a separator, to a capital. -/
theorem camelCase_normal_form (s : String) :
    camelCase (camelCase s) = camelCase s ∧
    (∀ c ∈ (camelCase s).toList, c ∉ wordSeparators) ∧
    (∀ c ∈ (camelCase s).toList.head?, ¬ ('A' ≤ c ∧ c ≤ 'Z')) ∧
    (camelCase s).toList.map Char.toLower = (letters s.toList).map Char.toLower ∧
    ∀ i c, (camelCase s).toList[i]? = some c ↔
      ∃ before d, LetterAt s.toList before i d ∧
        c = if i = 0 then d.toLower else if endsWord before then d.toUpper else d := by
  have hchars : (camelCase s).toList = camelChars s.toList := String.toList_ofList
  have hcamel : IsCamel (camelCase s).toList := by
    rw [hchars]
    exact isCamel_camelChars s.toList
  refine ⟨?_, hcamel.joined, ?_, ?_, ?_⟩
  · calc
      camelCase (camelCase s) = String.ofList (camelChars (camelCase s).toList) := rfl
      _ = String.ofList (camelCase s).toList := by rw [camelChars_eq_self_iff.mpr hcamel]
      _ = camelCase s := String.ofList_toList
  · intro c hc hcapital
    have hupper : c.isUpper = true := decide_eq_true hcapital
    rw [hcamel.small c hc] at hupper
    exact absurd hupper (by decide)
  · rw [hchars]
    exact map_toLower_camelChars s.toList
  · rw [hchars]
    exact getElem?_camelChars s.toList

/-- Separators of every kind, also at both ends and next to each other. A letter outside ASCII has no
capital here. -/
theorem camelCase_of_many_separators :
    let s := " _To do--äB_é9."
    camelCase s = "toDoäBé9" ∧ camelCase (camelCase s) = camelCase s ∧
      't' ∈ (camelCase s).toList.head? ∧ ¬ ('A' ≤ 't' ∧ 't' ≤ 'Z') ∧
      LetterAt s.toList " _To ".toList 2 'd' ∧ (camelCase s).toList[2]? = some 'D' := by
  intro s
  obtain ⟨hagain, -, hsmall, -, hletters⟩ := camelCase_normal_form s
  have hhead : 't' ∈ (camelCase s).toList.head? := by decide
  have hat : LetterAt s.toList " _To ".toList 2 'd' := ⟨by decide, by decide, by decide⟩
  have hcapital : (camelCase s).toList[2]? = some 'D' :=
    (hletters 2 'D').mpr ⟨" _To ".toList, 'd', hat, by decide⟩
  exact ⟨by decide, hagain, hhead, hsmall 't' hhead, hat, hcapital⟩

end PageNav.Text
