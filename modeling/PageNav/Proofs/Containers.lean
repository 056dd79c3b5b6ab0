import Mathlib.Data.List.Nodup
import Mathlib.Data.List.Perm.Subperm
import PageNav.Proofs.Identity

/-!
# Which container a key is

A key is a container by the longest word of the table that ends it. No two words of one size end
one key, so the order of the table does not matter.
-/

namespace PageNav

namespace RowTable

/-! ## Words that end a key -/

/-- Whether `word` ends `key` after `stem`: it is the whole key or follows a separator. -/
structure Ends (key stem word : String) : Prop where
  parts : key = stem ++ word
  nonempty : word ≠ ""
  separated : stem = "" ∨ ∃ front, stem = front ++ "_" ∨ stem = front ++ "-"

theorem stem?_eq_some_iff {word key stem : List Char} :
    stem? word key = some stem ↔
      key = stem ++ word ∧ word ≠ [] ∧ ∀ c ∈ stem.getLast?, c = '_' ∨ c = '-' := by
  have hall (cs : List Char) : cs.getLast?.all (fun c => c = '_' || c = '-') = true ↔
      ∀ c ∈ cs.getLast?, c = '_' ∨ c = '-' := by
    cases cs.getLast? <;> simp
  simp only [stem?, Option.ite_none_right_eq_some, Bool.and_eq_true, List.isSuffixOf_iff_suffix,
    hall, Option.some.injEq, Bool.not_eq_true', List.isEmpty_eq_false_iff]
  constructor
  · rintro ⟨⟨⟨hword, hsuffix⟩, hlast⟩, rfl⟩
    refine ⟨?_, hword, hlast⟩
    obtain ⟨front, rfl⟩ := hsuffix
    simp
  · rintro ⟨rfl, hword, hlast⟩
    simpa [hword] using hlast

theorem separated_iff {stem : String} :
    (stem = "" ∨ ∃ front, stem = front ++ "_" ∨ stem = front ++ "-") ↔
      ∀ c ∈ stem.toList.getLast?, c = '_' ∨ c = '-' := by
  constructor
  · rintro (rfl | ⟨front, rfl | rfl⟩) c hc <;> simp_all [eq_comm]
  · intro h
    rcases List.eq_nil_or_concat stem.toList with hnil | ⟨front, c, hc⟩
    · exact .inl (String.toList_eq_nil_iff.mp hnil)
    · refine .inr ⟨String.ofList front, ?_⟩
      rw [List.concat_eq_append] at hc
      simp only [← String.toList_inj, String.toList_append, String.toList_ofList, hc]
      rcases h c (by simp [hc]) with rfl | rfl
      · exact .inl rfl
      · exact .inr rfl

theorem containerBy?_eq_some_iff {key : String} {pair : String × String} {c : Container} :
    containerBy? key pair = some c ↔
      ∃ stem, Ends key stem pair.1 ∧ c = ⟨pair.1, stem ++ pair.2⟩ := by
  unfold containerBy?
  rw [Option.map_eq_some_iff]
  constructor
  · rintro ⟨stem, hstem, rfl⟩
    obtain ⟨hkey, hword, hlast⟩ := stem?_eq_some_iff.mp hstem
    refine ⟨String.ofList stem, ⟨?_, ?_, ?_⟩, rfl⟩
    · rw [← String.toList_inj, hkey]
      simp
    · intro hempty
      exact hword (by rw [hempty]; rfl)
    · apply separated_iff.mpr
      simpa using hlast
  · rintro ⟨stem, ⟨rfl, hword, hseparated⟩, rfl⟩
    refine ⟨stem.toList, stem?_eq_some_iff.mpr ⟨by simp, ?_, separated_iff.mp hseparated⟩, by simp⟩
    intro hnil
    exact hword (String.toList_eq_nil_iff.mp hnil)

theorem eq_of_suffix {word word' : String} (h : word'.toList <:+ word.toList)
    (hle : word.utf8ByteSize ≤ word'.utf8ByteSize) : word' = word := by
  obtain ⟨front, hfront⟩ := h
  have hsplit : word = String.ofList front ++ word' := by
    rw [← String.toList_inj]
    simpa using hfront.symm
  rw [hsplit, String.utf8ByteSize_append] at hle
  have hfront : String.ofList front = "" := by
    rw [← String.utf8ByteSize_eq_zero_iff]
    omega
  rw [hsplit, hfront, String.empty_append]

theorem Ends.size_lt {key stem stem' word word' : String} (h : Ends key stem word)
    (h' : Ends key stem' word') (hle : word'.utf8ByteSize ≤ word.utf8ByteSize)
    (hne : word' ≠ word) : word'.utf8ByteSize < word.utf8ByteSize := by
  have hword : word.toList <:+ key.toList := ⟨stem.toList, by rw [h.parts]; simp⟩
  have hword' : word'.toList <:+ key.toList := ⟨stem'.toList, by rw [h'.parts]; simp⟩
  refine Nat.lt_of_le_of_ne hle fun hsize => hne ?_
  rcases List.suffix_or_suffix_of_suffix hword' hword with hends | hends
  · exact eq_of_suffix hends (Nat.le_of_eq hsize.symm)
  · exact (eq_of_suffix hends hle).symm

/-! ## The longest of them -/

theorem foldl_longer (cs : List Container) (best : Container) :
    ∃ d, cs.foldl (fun best c => some (best.elim c (longer · c))) (some best) = some d ∧
      d ∈ best :: cs ∧ ∀ c ∈ best :: cs, c.word.utf8ByteSize ≤ d.word.utf8ByteSize := by
  induction cs generalizing best with
  | nil => exact ⟨best, rfl, by simp, by simp⟩
  | cons c cs ih =>
    obtain ⟨d, hfold, hmem, hlongest⟩ := ih (longer best c)
    have hcases : longer best c = best ∧ c.word.utf8ByteSize < best.word.utf8ByteSize ∨
        longer best c = c ∧ best.word.utf8ByteSize ≤ c.word.utf8ByteSize := by
      unfold longer
      split
      · next hle => exact .inr ⟨rfl, hle⟩
      · next hlt => exact .inl ⟨rfl, Nat.lt_of_not_le hlt⟩
    refine ⟨d, hfold, ?_, ?_⟩
    · rcases List.mem_cons.mp hmem with rfl | hmem
      · rcases hcases with ⟨h, -⟩ | ⟨h, -⟩ <;> simp [h]
      · simp [hmem]
    · have hfirst := hlongest _ List.mem_cons_self
      have hrest : ∀ c ∈ cs, c.word.utf8ByteSize ≤ d.word.utf8ByteSize := fun c hc =>
        hlongest c (List.mem_cons_of_mem _ hc)
      simp only [List.mem_cons, forall_eq_or_imp]
      rcases hcases with ⟨h, hlt⟩ | ⟨h, hle⟩ <;> rw [h] at hfirst <;>
        exact ⟨by omega, by omega, hrest⟩

section

variable {table : RowTable} {key : String}

theorem container?_eq_none_iff :
    table.container? key = none ↔ ∀ pair ∈ table.pairs, ∀ stem, ¬ Ends key stem pair.1 := by
  have hnone : table.container? key = none ↔
      table.pairs.filterMap (containerBy? key) = [] := by
    unfold container?
    cases table.pairs.filterMap (containerBy? key) with
    | nil => simp
    | cons c cs =>
      obtain ⟨d, hfold, -⟩ := foldl_longer cs c
      simp only [List.foldl_cons, Option.elim_none, hfold]
      simp
  rw [hnone, List.filterMap_eq_nil_iff]
  refine forall₂_congr fun pair _ => ?_
  rw [Option.eq_none_iff_forall_ne_some]
  constructor
  · intro h stem hends
    exact h _ (containerBy?_eq_some_iff.mpr ⟨stem, hends, rfl⟩)
  · intro h c hc
    obtain ⟨stem, hends, -⟩ := containerBy?_eq_some_iff.mp hc
    exact h stem hends

/-- The container is that of one pair, whose word is longer than all others that end the key. -/
theorem container?_spec {c : Container} (h : table.container? key = some c) :
    ∃ stem item, (c.word, item) ∈ table.pairs ∧ Ends key stem c.word ∧ c.itemKey = stem ++ item ∧
      ∀ pair ∈ table.pairs, pair.1 ≠ c.word → ∀ stem', Ends key stem' pair.1 →
        pair.1.utf8ByteSize < c.word.utf8ByteSize := by
  have hlongest : c ∈ table.pairs.filterMap (containerBy? key) ∧
      ∀ d ∈ table.pairs.filterMap (containerBy? key), d.word.utf8ByteSize ≤ c.word.utf8ByteSize := by
    unfold container? at h
    cases hfound : table.pairs.filterMap (containerBy? key) with
    | nil => simp [hfound] at h
    | cons b cs =>
      obtain ⟨d, hfold, hmem, hmax⟩ := foldl_longer cs b
      simp only [hfound, List.foldl_cons, Option.elim_none, hfold, Option.some.injEq] at h
      rw [← h]
      exact ⟨hmem, hmax⟩
  obtain ⟨hmem, hmax⟩ := hlongest
  obtain ⟨⟨word, item⟩, hpair, hc⟩ := List.mem_filterMap.mp hmem
  obtain ⟨stem, hends, rfl⟩ := containerBy?_eq_some_iff.mp hc
  refine ⟨stem, item, hpair, hends, rfl, ?_⟩
  intro pair hother hne stem' hends'
  have hle := hmax _ (List.mem_filterMap.mpr
    ⟨pair, hother, containerBy?_eq_some_iff.mpr ⟨stem', hends', rfl⟩⟩)
  exact hends.size_lt hends' hle hne

end

/-! ## The order of the table -/

def Distinct (table : RowTable) : Prop :=
  (table.pairs.map Prod.fst).Nodup

theorem map_fst_insertPair (word item : String) (pairs : List (String × String)) :
    (insertPair word item pairs).map Prod.fst =
      if word ∈ pairs.map Prod.fst then pairs.map Prod.fst else pairs.map Prod.fst ++ [word] := by
  induction pairs with
  | nil => simp [insertPair]
  | cons pair pairs ih =>
    obtain ⟨w, i⟩ := pair
    unfold insertPair
    by_cases hw : w = word
    · simp [hw]
    · simp only [hw, if_false, List.map_cons, ih, List.mem_cons, Ne.symm hw, false_or]
      split <;> simp

theorem Distinct.insert {table : RowTable} (distinct : table.Distinct) (word item : String) :
    (table.insert word item).Distinct := by
  unfold Distinct RowTable.insert at *
  rw [map_fst_insertPair]
  split
  · exact distinct
  · next hnew =>
    refine List.nodup_append.mpr ⟨distinct, List.nodup_singleton word, ?_⟩
    rintro w hw _ hword rfl
    exact hnew (List.mem_singleton.mp hword ▸ hw)

theorem distinct_ofList (pairs : List (String × String)) : (ofList pairs).Distinct := by
  unfold ofList
  have hempty : empty.Distinct := List.nodup_nil
  generalize empty = table at hempty
  induction pairs generalizing table with
  | nil => exact hempty
  | cons pair pairs ih => exact ih _ (hempty.insert pair.1 pair.2)

theorem same_iff_perm {s t : RowTable} (distinct : s.Distinct) :
    s.same t = true ↔ s.pairs.Perm t.pairs := by
  simp only [same, Bool.and_eq_true, beq_iff_eq, List.all_eq_true, List.contains_iff_mem]
  constructor
  · rintro ⟨hlength, hsub⟩
    have hnodup : s.pairs.Nodup := List.Nodup.of_map _ distinct
    exact (List.subperm_of_subset hnodup hsub).perm_of_length_le (Nat.le_of_eq hlength.symm)
  · intro hperm
    exact ⟨hperm.length_eq, fun pair hpair => hperm.subset hpair⟩

theorem container?_of_perm {s t : RowTable} (distinct : s.Distinct)
    (hperm : s.pairs.Perm t.pairs) (key : String) : s.container? key = t.container? key := by
  cases hs : s.container? key with
  | none =>
    refine (container?_eq_none_iff.mpr fun pair hpair => ?_).symm
    exact container?_eq_none_iff.mp hs pair (hperm.mem_iff.mpr hpair)
  | some c =>
    cases ht : t.container? key with
    | none =>
      obtain ⟨stem, item, hmem, hends, -⟩ := container?_spec hs
      exact absurd hends (container?_eq_none_iff.mp ht _ (hperm.mem_iff.mp hmem) stem)
    | some d =>
      obtain ⟨stem, item, hmem, hends, hitem, hlongest⟩ := container?_spec hs
      obtain ⟨stem', item', hmem', hends', hitem', hlongest'⟩ := container?_spec ht
      have hword : c.word = d.word := by
        by_contra hne
        have hlt := hlongest _ (hperm.mem_iff.mpr hmem') (Ne.symm hne) stem' hends'
        have hlt' := hlongest' _ (hperm.mem_iff.mp hmem) hne stem hends
        exact Nat.lt_asymm hlt hlt'
      have hstem : stem = stem' := by
        have hparts := hends.parts.symm.trans hends'.parts
        rwa [hword, String.append_left_inj] at hparts
      have hsame : item = item' := by
        rw [hword] at hmem
        exact congrArg Prod.snd
          (List.inj_on_of_nodup_map distinct hmem (hperm.mem_iff.mpr hmem') rfl)
      rw [Option.some.injEq, Container.mk.injEq, hitem, hitem', hstem, hsame]
      exact ⟨hword, rfl⟩

end RowTable

namespace Layout

theorem ofSchema_congr {s t : RowTable} (h : ∀ key, s.container? key = t.container? key)
    (schema : Schema) : ofSchema s schema = ofSchema t schema := by
  induction schema with
  | nil => rfl
  | leaf k rest ih => rw [ofSchema, ofSchema, ih]
  | branch k child rest ihchild ih =>
    have hunder (l : Layout) : l.under s k = l.under t k := by
      simp only [under, filterFor?, h]
    rw [ofSchema, ofSchema, ih, ihchild, hunder]

end Layout

namespace RowTable

/-- Tables with the same pairs make the same page of every schema. A key is a container if a word of
the table ends it, and then by the longest such word. -/
theorem longest_word_in_any_order (s : RowTable) (distinct : s.Distinct) :
    (∀ t, (s.same t = true ↔ s.pairs.Perm t.pairs) ∧
      (s.pairs.Perm t.pairs → ∀ schema,
        (Layout.ofSchema s schema).signature = (Layout.ofSchema t schema).signature)) ∧
    ∀ key,
      ((s.container? key).isSome = true ↔ ∃ pair ∈ s.pairs, ∃ stem, Ends key stem pair.1) ∧
      ∀ c ∈ s.container? key, ∃ stem item, (c.word, item) ∈ s.pairs ∧ Ends key stem c.word ∧
        c.itemKey = stem ++ item ∧
        ∀ pair ∈ s.pairs, pair.1 ≠ c.word → ∀ stem', Ends key stem' pair.1 →
          pair.1.utf8ByteSize < c.word.utf8ByteSize := by
  refine ⟨fun t => ⟨same_iff_perm distinct, ?_⟩, fun key => ⟨?_, fun c hc => container?_spec hc⟩⟩
  · intro hperm schema
    rw [Layout.ofSchema_congr (container?_of_perm distinct hperm)]
  · rw [Option.isSome_iff_ne_none, Ne, container?_eq_none_iff]
    push Not
    rfl

/-- One of two words that end a key is the longer one, wherever it stands in the table. -/
theorem lineItems_in_any_order :
    let table := ofList [("items", "item"), ("line_items", "line")]
    let turned := ofList [("line_items", "line"), ("items", "item")]
    let page : Schema := .branch "order_line_items"
      (.branch "order_line" (.leaf "price" .nil)
        (.branch "order_line_item" (.leaf "name" .nil) .nil)) .nil
    table.Distinct ∧ table.pairs.Perm turned.pairs ∧ table.pairs ≠ turned.pairs ∧
      table.container? "order_line_items" = some ⟨"line_items", "order_line"⟩ ∧
      (Layout.ofSchema table page).signature = (Layout.ofSchema turned page).signature := by
  intro table turned page
  have distinct : table.Distinct := distinct_ofList _
  have hperm : table.pairs.Perm turned.pairs := .swap _ _ _
  obtain ⟨horder, -⟩ := longest_word_in_any_order table distinct
  exact ⟨distinct, hperm, by decide, by decide, (horder turned).2 hperm page⟩

end RowTable

end PageNav
