import PageNav.Proofs.Printing

/-!
# Paths of words

If every key is a word, a path can be read word by word, so a listing goes to no spot twice.
-/

namespace PageNav

open Text

/-! ## All keys of a page -/

namespace Schema

/-- Whether `P` holds of every key, on all levels. -/
def EachKey (P : String → Prop) : Schema → Prop
  | nil => True
  | leaf key rest => P key ∧ rest.EachKey P
  | branch key child rest => P key ∧ child.EachKey P ∧ rest.EachKey P

def total : Schema → Nat
  | nil => 0
  | leaf _ rest => rest.total + 1
  | branch _ child rest => child.total + rest.total + 1

theorem EachKey.key {P : String → Prop} {s : Schema} (h : s.EachKey P) {key : String}
    (hkey : key ∈ s.keys) : P key := by
  induction s with
  | nil => exact absurd hkey List.not_mem_nil
  | leaf k rest ih =>
    rcases List.mem_cons.mp hkey with rfl | hkey
    · exact h.1
    · exact ih h.2 hkey
  | branch k child rest _ ih =>
    rcases List.mem_cons.mp hkey with rfl | hkey
    · exact h.1
    · exact ih h.2.2 hkey

end Schema

theorem Layout.length_spots (l : Layout) (path : String) :
    (l.spots path).length = l.toSchema.total := by
  induction l generalizing path with
  | plain => rfl
  | filtered _ _ => rfl
  | leaf k rest ih =>
    unfold spots toSchema Schema.total
    rw [List.length_cons, ih]
  | branch k child rest ihchild ih =>
    unfold spots toSchema Schema.total
    rw [List.length_cons, List.length_append, ihchild, ih]

namespace Path

/-! ## Words -/

/-- A text that is not empty and has no blank in it. -/
structure IsWord (key : String) : Prop where
  filled : key ≠ ""
  solid : key.toList.any isBlank = false

theorem IsWord.no_space {key : String} (h : IsWord key) {c : Char} (hc : c ∈ key.toList) :
    c ≠ ' ' := by
  have hspace : isBlank ' ' = true := by decide
  rintro rfl
  exact List.any_eq_false.mp h.solid _ hc hspace

/-- What stands in front of the steps below a path. -/
def lead (parent : String) : List Char :=
  if parent.isEmpty then [] else parent.toList ++ [' ']

theorem toList_below_eq (parent step : String) :
    (below parent step).toList = lead parent ++ step.toList := by
  unfold below lead
  split
  · rfl
  · simp

theorem below_filled (parent : String) {step : String} (h : step ≠ "") :
    below parent step ≠ "" := by
  intro hempty
  have hlist := toList_below_eq parent step
  rw [hempty] at hlist
  obtain ⟨-, hstep⟩ := List.append_eq_nil_iff.mp hlist.symm
  exact h (String.toList_eq_nil_iff.mp hstep)

/-- Whether a path is `start` or goes on from there. -/
def From (start path : String) : Prop :=
  path = start ∨ ∃ rest, path = start ++ " " ++ rest

theorem From.refl (path : String) : From path path :=
  .inl rfl

theorem From.below {start path : String} (filled : start ≠ "") {step : String}
    (h : From (below start step) path) : ∃ rest, path = start ++ " " ++ rest := by
  have hbelow : Path.below start step = start ++ " " ++ step := by
    unfold Path.below
    rw [if_neg (fun hempty => filled (String.isEmpty_iff.mp hempty))]
  rw [hbelow] at h
  obtain rfl | ⟨rest, rfl⟩ := h
  · exact ⟨step, rfl⟩
  · exact ⟨step ++ " " ++ rest, by simp only [String.append_assoc]⟩

theorem From.rest {parent step path : String} (h : From (Path.below parent step) path) :
    ∃ rest, path.toList = lead parent ++ (step.toList ++ rest) ∧ ∀ c ∈ rest.head?, c = ' ' := by
  obtain rfl | ⟨rest, rfl⟩ := h
  · refine ⟨[], ?_, by simp⟩
    rw [toList_below_eq, List.append_nil]
  · refine ⟨' ' :: rest.toList, ?_, by simp⟩
    rw [String.toList_append, String.toList_append, toList_below_eq]
    simp

theorem takeWhile_word {key : String} (word : IsWord key) {rest : List Char}
    (hrest : ∀ c ∈ rest.head?, c = ' ') :
    (key.toList ++ rest).takeWhile (· ≠ ' ') = key.toList := by
  have hend : rest.takeWhile (· ≠ ' ') = [] := by
    cases rest with
    | nil => rfl
    | cons c cs =>
      obtain rfl := hrest c rfl
      rfl
  rw [List.takeWhile_append_of_pos, hend, List.append_nil]
  intro c hc
  exact decide_eq_true (word.no_space hc)

/-- A path goes on from one word only. -/
theorem From.word_unique {parent key other path : String} (word : IsWord key)
    (word' : IsWord other) (h : From (Path.below parent key) path)
    (h' : From (Path.below parent other) path) : key = other := by
  obtain ⟨rest, hpath, hrest⟩ := h.rest
  obtain ⟨rest', hpath', hrest'⟩ := h'.rest
  have hsame : key.toList ++ rest = other.toList ++ rest' :=
    List.append_cancel_left (hpath.symm.trans hpath')
  apply String.toList_inj.mp
  rw [← takeWhile_word word hrest, hsame, takeWhile_word word' hrest']

theorem ne_further {start rest : String} : start ≠ start ++ " " ++ rest := by
  intro h
  have hlength := congrArg String.length h
  rw [String.length_append, String.length_append] at hlength
  have hspace : " ".length = 1 := rfl
  omega

end Path

/-! ## Listed spots -/

namespace Layout

open PageNav.Path (From IsWord)

theorem mem_spots {l : Layout} (words : l.toSchema.EachKey IsWord) {path : String} {spot : Spot}
    (h : spot ∈ l.spots path) : ∃ key ∈ l.keys, From (Path.below path key) spot.path := by
  induction l generalizing path with
  | plain => exact absurd h List.not_mem_nil
  | filtered _ _ => exact absurd h List.not_mem_nil
  | leaf k rest ih =>
    rcases List.mem_cons.mp h with rfl | h
    · exact ⟨k, List.mem_cons_self, .refl _⟩
    · obtain ⟨key, hkey, hfrom⟩ := ih words.2 h
      exact ⟨key, List.mem_cons_of_mem _ hkey, hfrom⟩
  | branch k child rest ihchild ih =>
    rcases List.mem_cons.mp h with rfl | h
    · exact ⟨k, List.mem_cons_self, .refl _⟩
    · rcases List.mem_append.mp h with h | h
      · obtain ⟨key, -, hfrom⟩ := ihchild words.2.1 h
        have hlonger := hfrom.below (Path.below_filled path words.1.filled)
        exact ⟨k, List.mem_cons_self, .inr hlonger⟩
      · obtain ⟨key, hkey, hfrom⟩ := ih words.2.2 h
        exact ⟨key, List.mem_cons_of_mem _ hkey, hfrom⟩

theorem not_from_of_fresh {rest : Layout} (words : rest.toSchema.EachKey IsWord) {key : String}
    (word : IsWord key) (fresh : key ∉ rest.keys) {path : String} {spot : Spot}
    (h : spot ∈ rest.spots path) : ¬ From (Path.below path key) spot.path := by
  intro hfrom
  obtain ⟨other, hother, hfrom'⟩ := mem_spots words h
  have hword : IsWord other := words.key (by rw [keys_toSchema]; exact hother)
  rw [hfrom.word_unique word hword hfrom'] at fresh
  exact fresh hother

theorem nodup_spots {l : Layout} (distinct : l.Distinct) (words : l.toSchema.EachKey IsWord)
    (path : String) : (l.spots path).Nodup := by
  induction l generalizing path with
  | plain => exact List.nodup_nil
  | filtered _ _ => exact List.nodup_nil
  | leaf k rest ih =>
    refine List.nodup_cons.mpr ⟨?_, ih distinct.2 words.2 path⟩
    intro h
    exact not_from_of_fresh words.2 words.1 distinct.1 h (.refl _)
  | branch k child rest ihchild ih =>
    obtain ⟨fresh, hchild, hrest⟩ := distinct
    obtain ⟨word, wordsChild, wordsRest⟩ := words
    have hfilled := Path.below_filled path word.filled
    have hlonger {spot : Spot} (h : spot ∈ child.spots (Path.below path k)) :
        ∃ rest, spot.path = Path.below path k ++ " " ++ rest := by
      obtain ⟨key, -, hfrom⟩ := mem_spots wordsChild h
      exact hfrom.below hfilled
    unfold spots
    refine List.nodup_cons.mpr ⟨?_, List.nodup_append.mpr ⟨ihchild hchild wordsChild _,
      ih hrest wordsRest path, ?_⟩⟩
    · intro h
      rcases List.mem_append.mp h with h | h
      · obtain ⟨rest, hrest⟩ := hlonger h
        exact Path.ne_further hrest
      · exact not_from_of_fresh wordsRest word fresh h (.refl _)
    · rintro spot h _ h' rfl
      exact not_from_of_fresh wordsRest word fresh h' (.inr (hlonger h))

theorem root_not_listed {l m : Layout} (words : l.toSchema.EachKey IsWord) :
    ⟨"", some m⟩ ∉ l.spots "" := by
  intro h
  obtain ⟨key, hkey, hfrom⟩ := mem_spots words h
  have hword : IsWord key := words.key (by rw [keys_toSchema]; exact hkey)
  obtain ⟨rest, hpath, -⟩ := hfrom.rest
  obtain ⟨-, hrest⟩ := List.append_eq_nil_iff.mp hpath.symm
  obtain ⟨hnil, -⟩ := List.append_eq_nil_iff.mp hrest
  exact hword.filled (String.toList_eq_nil_iff.mp hnil)

end Layout

end PageNav
