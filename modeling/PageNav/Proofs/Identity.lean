import PageNav.Proofs.Signature

/-!
# What a signature says about a page

A signature stands for a layout, for the schema that the layout was made from and for its row
filters. Where a level has a row filter it has no key of that name, so the two are never mixed up.
-/

namespace PageNav.Layout

/-! ## The schema of a layout -/

/-- The keys of a layout, without its row filters. -/
def toSchema : Layout → Schema
  | plain => .nil
  | filtered _ _ => .nil
  | leaf k rest => .leaf k rest.toSchema
  | branch k child rest => .branch k child.toSchema rest.toSchema

@[simp] theorem toSchema_withFilter (filter : RowFilter) (l : Layout) :
    (l.withFilter filter).toSchema = l.toSchema := by
  induction l <;> simp_all [withFilter, toSchema]

@[simp] theorem toSchema_under (table : RowTable) (key : String) (l : Layout) :
    (l.under table key).toSchema = l.toSchema := by
  unfold under
  split <;> simp

@[simp] theorem toSchema_ofSchema (table : RowTable) (s : Schema) :
    (ofSchema table s).toSchema = s := by
  induction s <;> simp_all [ofSchema, toSchema]

/-! ## Levels -/

def level? : List String → Layout → Option Layout
  | [], l => some l
  | key :: keys, l =>
    match l.find? key with
    | some (.branch child) => child.level? keys
    | _ => none

@[simp] theorem find?_withFilter (filter : RowFilter) (key : String) (l : Layout) :
    (l.withFilter filter).find? key = l.find? key := by
  induction l <;> simp_all [withFilter, find?]

@[simp] theorem find?_under (table : RowTable) (key name : String) (l : Layout) :
    (l.under table name).find? key = l.find? key := by
  unfold under
  split <;> simp

theorem rowFilter?_ofSchema (table : RowTable) (s : Schema) :
    (ofSchema table s).rowFilter? = none := by
  induction s with
  | nil => rfl
  | leaf k rest ih => exact ih
  | branch k child rest _ ih => exact ih

theorem find?_ofSchema {table : RowTable} {s : Schema} {key : String} {l : Layout}
    (h : (ofSchema table s).find? key = some (.branch l)) :
    ∃ child, l = (ofSchema table child).under table key := by
  induction s with
  | nil => exact absurd h (by simp [ofSchema, find?])
  | leaf k rest ih =>
    rw [ofSchema, find?] at h
    split at h
    · exact absurd h (by simp)
    · exact ih h
  | branch k child rest _ ih =>
    rw [ofSchema, find?] at h
    split at h
    · next hk =>
      obtain rfl := Entry.branch.inj (Option.some.inj h)
      exact ⟨child, by rw [hk]⟩
    · exact ih h

theorem not_contains_of_rowFilter? {table : RowTable} {key : String} {s : Schema}
    (h : (((ofSchema table s).under table key).rowFilter?).isSome) :
    ((ofSchema table s).under table key).contains filterKey = false := by
  rw [contains, find?_under]
  cases hfilter : (ofSchema table s).filterFor? table key with
  | none =>
    rw [under, hfilter] at h
    simp only [rowFilter?_ofSchema] at h
    exact absurd h (by simp)
  | some filter => exact (filterFor?_eq_some hfilter).2

/-- Whether a level has no key of the name under which its row filter is shown. -/
def FilterApart (l : Layout) : Prop :=
  l.rowFilter?.isSome → l.contains filterKey = false

theorem filterApart_under {table : RowTable} {key : String} {keys : List String} {s : Schema}
    {l : Layout} (h : ((ofSchema table s).under table key).level? keys = some l) :
    l.FilterApart := by
  induction keys generalizing s key with
  | nil =>
    obtain rfl := Option.some.inj h
    exact not_contains_of_rowFilter?
  | cons next keys ih =>
    rw [level?, find?_under] at h
    split at h
    · next hfind =>
      obtain ⟨child, rfl⟩ := find?_ofSchema hfind
      exact ih h
    · exact absurd h (by simp)

theorem filterApart_ofSchema {table : RowTable} {keys : List String} {s : Schema} {l : Layout}
    (h : (ofSchema table s).level? keys = some l) : l.FilterApart := by
  cases keys with
  | nil =>
    obtain rfl := Option.some.inj h
    intro hfilter
    rw [rowFilter?_ofSchema] at hfilter
    exact absurd hfilter (by simp)
  | cons key keys =>
    rw [level?] at h
    split at h
    · next hfind =>
      obtain ⟨child, rfl⟩ := find?_ofSchema hfind
      exact filterApart_under h
    · exact absurd h (by simp)

/-! ## Equality -/

def Distinct : Layout → Prop
  | plain => True
  | filtered _ columns => columns.Distinct
  | leaf k rest => k ∉ rest.keys ∧ rest.Distinct
  | branch k child rest => k ∉ rest.keys ∧ child.Distinct ∧ rest.Distinct

theorem Distinct.child {l c : Layout} (h : l.Distinct) {key : String}
    (hfind : l.find? key = some (.branch c)) : c.Distinct :=
  of_find? (P := Distinct) (fun _ _ h => h.2) (fun _ _ _ h => h.2) h hfind

theorem distinct_withFilter {filter : RowFilter} (hcolumns : filter.columns.Distinct) {l : Layout}
    (h : l.Distinct) : (l.withFilter filter).Distinct := by
  induction l with
  | plain => exact hcolumns
  | filtered _ _ => exact h
  | leaf k rest ih => exact ⟨by simpa [keys] using h.1, ih h.2⟩
  | branch k child rest _ ih => exact ⟨by simpa [keys] using h.1, h.2.1, ih h.2.2⟩

theorem distinct_under (table : RowTable) (key : String) {l : Layout} (h : l.Distinct) :
    (l.under table key).Distinct := by
  unfold under
  cases hfilter : l.filterFor? table key with
  | none => exact h
  | some filter =>
    obtain ⟨hitem, -⟩ := filterFor?_eq_some hfilter
    exact distinct_withFilter (h.child hitem) h

theorem distinct_ofSchema (table : RowTable) {s : Schema} (h : s.Distinct) :
    (ofSchema table s).Distinct := by
  induction s with
  | nil => trivial
  | leaf k rest ih => exact ⟨by simpa using h.1, ih h.2⟩
  | branch k child rest ihchild ih =>
    exact ⟨by simpa using h.1, distinct_under table k (ihchild h.2.1), ih h.2.2⟩

/-- A level is found in every level that finds all its keys as it does itself. -/
theorem entriesIn_of_find? {l other : Layout} (distinct : l.Distinct)
    (hfind : ∀ key entry, l.find? key = some entry → other.find? key = some entry)
    (hfilter : l.rowFilter? = other.rowFilter?) : l.entriesIn other = true := by
  induction l generalizing other with
  | plain =>
    rw [entriesIn, ← hfilter]
    rfl
  | filtered itemKey columns ih =>
    rw [entriesIn, ← hfilter]
    simp [rowFilter?, ih distinct (fun _ _ h => h) rfl]
  | leaf k rest ih =>
    have hk : other.find? k = some .leaf := hfind k .leaf (by simp [find?])
    have hrest : rest.entriesIn other = true := by
      refine ih distinct.2 (fun key entry h => hfind key entry ?_) hfilter
      have hne : k ≠ key := fun he => distinct.1 (he ▸ mem_keys_of_find? h)
      rw [find?, if_neg hne, h]
    simp [entriesIn, hk, hrest]
  | branch k child rest ihchild ih =>
    have hk : other.find? k = some (.branch child) := hfind k (.branch child) (by simp [find?])
    have hchild : child.entriesIn child = true := ihchild distinct.2.1 (fun _ _ h => h) rfl
    have hrest : rest.entriesIn other = true := by
      refine ih distinct.2.2 (fun key entry h => hfind key entry ?_) hfilter
      have hne : k ≠ key := fun he => distinct.1 (he ▸ mem_keys_of_find? h)
      rw [find?, if_neg hne, h]
    simp [entriesIn, hk, hchild, hrest]

theorem same_self {l : Layout} (distinct : l.Distinct) : l.same l = true := by
  simp [same, entriesIn_of_find? distinct (fun _ _ h => h) rfl]

/-! ## What signatures tell -/

/-- Layouts with one signature come from one schema and have the same row filters in the same places,
each where neither has a key of its name. So signatures tell layouts apart just as equality does. -/
theorem signature_identifies (a b : Schema) (s t : RowTable) :
    ((ofSchema s a).signature = (ofSchema t b).signature →
      a = b ∧ ofSchema s a = ofSchema t b ∧
      ∀ keys l m, (ofSchema s a).level? keys = some l → (ofSchema t b).level? keys = some m →
        l.rowFilter? = m.rowFilter? ∧ (l.rowFilter?.isSome → m.contains filterKey = false)) ∧
    (a.Distinct → ((ofSchema s a).same (ofSchema t b) = true ↔
      (ofSchema s a).signature = (ofSchema t b).signature)) := by
  constructor
  · intro h
    have hlayout := signature_injective h
    have hschema := congrArg toSchema hlayout
    rw [toSchema_ofSchema, toSchema_ofSchema] at hschema
    refine ⟨hschema, hlayout, ?_⟩
    intro keys l m hl hm
    rw [← hlayout, hl] at hm
    obtain rfl := Option.some.inj hm
    exact ⟨rfl, filterApart_ofSchema hl⟩
  · intro distinct
    constructor
    · intro h
      simp only [same, Bool.and_eq_true, beq_iff_eq] at h
      exact h.2
    · intro h
      rw [← signature_injective h]
      exact same_self (distinct_ofSchema s distinct)

/-- A list of rows whose one column is named like the mark of a row filter. -/
def markedPage : Schema :=
  .branch "rows" (.branch "row" (.leaf "+with(\"row\"):\x7b" .nil) .nil) .nil

/-- A table with further words makes the same page of it. -/
theorem markedPage_same_of_wider_table :
    let page := ofSchema .standard markedPage
    let wide := ofSchema (.ofList [("items", "item"), ("rows", "row")]) markedPage
    markedPage.Distinct ∧ page.signature = wide.signature ∧ page = wide ∧ page.same wide = true := by
  intro page wide
  have distinct : markedPage.Distinct :=
    ⟨by decide, ⟨by decide, ⟨by decide, trivial⟩, trivial⟩, trivial⟩
  have hsignature : page.signature = wide.signature := by decide
  obtain ⟨htold, hsame⟩ := signature_identifies markedPage markedPage .standard
    (.ofList [("items", "item"), ("rows", "row")])
  exact ⟨distinct, hsignature, (htold hsignature).2.1, (hsame distinct).mpr hsignature⟩

/-- A row filter is not the key of its name, although both are shown alike. -/
example :
    (ofSchema .standard (.branch "rows" (.branch "row" (.leaf "a" .nil) .nil) .nil)).signature ≠
      (ofSchema .standard (.branch "rows" (.branch "row" (.leaf "a" .nil)
        (.branch "with" (.leaf "a" .nil) .nil)) .nil)).signature := by
  decide

end PageNav.Layout
