import PageNav.Proofs.Identity

/-!
# Where the row filters of a page are

A layout has the levels and keys of its schema. A level has a row filter exactly if its own key names
a container, the item of the container has keys, and no key of the level has the name of a filter.
What a layout shows is its schema again, once the row filters are taken out.
-/

namespace PageNav

def Entry.map {α β : Type} (f : α → β) : Entry α → Entry β
  | leaf => leaf
  | branch child => branch (f child)

def Schema.level? : List String → Schema → Option Schema
  | [], s => some s
  | key :: keys, s =>
    match s.find? key with
    | some (.branch child) => child.level? keys
    | _ => none

namespace Layout

/-! ## Levels and their keys -/

theorem contains_iff {l : Layout} {key : String} : l.contains key = true ↔ key ∈ l.keys := by
  constructor
  · intro h
    obtain ⟨entry, hentry⟩ := Option.isSome_iff_exists.mp h
    exact mem_keys_of_find? hentry
  · intro h
    induction l with
    | plain => exact absurd h List.not_mem_nil
    | filtered _ _ => exact absurd h List.not_mem_nil
    | leaf k rest ih | branch k child rest _ ih =>
      rw [contains, find?]
      split
      · rfl
      · next hne =>
        rcases List.mem_cons.mp h with rfl | h
        · exact absurd rfl hne
        · exact ih h

theorem isEmpty_iff {l : Layout} : l.isEmpty = true ↔ l.keys = [] := by
  rw [isEmpty, beq_iff_eq, ← length_keys, List.length_eq_zero_iff]

@[simp] theorem keys_toSchema (l : Layout) : l.toSchema.keys = l.keys := by
  induction l <;> simp_all [toSchema, Schema.keys, keys]

theorem find?_toSchema (l : Layout) (key : String) :
    l.toSchema.find? key = (l.find? key).map (Entry.map toSchema) := by
  induction l with
  | plain => rfl
  | filtered _ _ => rfl
  | leaf k rest ih =>
    rw [toSchema, Schema.find?, find?, ih]
    split <;> rfl
  | branch k child rest _ ih =>
    rw [toSchema, Schema.find?, find?, ih]
    split <;> rfl

theorem level?_toSchema (keys : List String) (l : Layout) :
    l.toSchema.level? keys = (l.level? keys).map toSchema := by
  induction keys generalizing l with
  | nil => rfl
  | cons key keys ih =>
    rw [Schema.level?, level?, find?_toSchema]
    cases l.find? key with
    | none => rfl
    | some entry =>
      cases entry with
      | leaf => rfl
      | branch child => exact ih child

theorem level?_of_ofSchema {table : RowTable} {schema : Schema} {keys : List String} {level : Layout}
    (h : (ofSchema table schema).level? keys = some level) :
    schema.level? keys = some level.toSchema := by
  rw [← toSchema_ofSchema table schema, level?_toSchema, h, Option.map_some]

theorem level?_concat {keys : List String} {l m : Layout} (h : l.level? keys = some m)
    (key : String) : l.level? (keys ++ [key]) = m.level? [key] := by
  induction keys generalizing l with
  | nil =>
    obtain rfl := Option.some.inj h
    rfl
  | cons next keys ih =>
    rw [level?] at h
    rw [List.cons_append, level?]
    split at h
    · exact ih h
    · exact absurd h (by simp)

theorem level?_singleton {l m : Layout} {key : String} :
    l.level? [key] = some m ↔ l.find? key = some (.branch m) := by
  rw [level?]
  split
  · next child hfind => simp [hfind, level?]
  · next hother => simp only [reduceCtorEq, false_iff]; exact hother m

/-! ## Row filters of levels -/

theorem rowFilter?_withFilter {l : Layout} (h : l.rowFilter? = none) (filter : RowFilter) :
    (l.withFilter filter).rowFilter? = some filter := by
  induction l with
  | plain => rfl
  | filtered _ _ => exact absurd h (by simp [rowFilter?])
  | leaf k rest ih => exact ih h
  | branch k child rest _ ih => exact ih h

theorem rowFilter?_under {l : Layout} (h : l.rowFilter? = none) (table : RowTable) (key : String) :
    (l.under table key).rowFilter? = l.filterFor? table key := by
  unfold under
  cases l.filterFor? table key with
  | none => exact h
  | some filter => exact rowFilter?_withFilter h filter

theorem filterFor?_eq_some_iff {table : RowTable} {key : String} {level : Layout}
    {filter : RowFilter} :
    level.filterFor? table key = some filter ↔
      ∃ container, table.container? key = some container ∧
        filter.itemKey = container.itemKey ∧
        level.find? container.itemKey = some (.branch filter.columns) ∧
        filter.columns.keys ≠ [] ∧ filterKey ∉ level.keys := by
  constructor
  · intro h
    obtain ⟨container, hcontainer, h⟩ := Option.bind_eq_some_iff.mp h
    refine ⟨container, hcontainer, ?_⟩
    split at h
    · next columns hitem =>
      split at h
      · exact absurd h (by simp)
      · next hkeys =>
        obtain rfl := Option.some.inj h
        rw [Bool.or_eq_true, isEmpty_iff, contains_iff, not_or] at hkeys
        exact ⟨rfl, hitem, hkeys⟩
    · exact absurd h (by simp)
  · rintro ⟨container, hcontainer, hkey, hitem, hkeys⟩
    refine Option.bind_eq_some_iff.mpr ⟨container, hcontainer, ?_⟩
    have hgets : ¬ (filter.columns.isEmpty || level.contains filterKey) = true := by
      rw [Bool.or_eq_true, isEmpty_iff, contains_iff, not_or]
      exact hkeys
    simp only [hitem]
    rw [if_neg hgets, ← hkey]

theorem level?_under {keys : List String} (h : keys ≠ []) (table : RowTable) (name : String)
    (l : Layout) : (l.under table name).level? keys = l.level? keys := by
  cases keys with
  | nil => exact absurd rfl h
  | cons key keys => rw [level?, level?, find?_under]

/-- A level is made from its part of the schema alone, and gets its row filter by its own key. -/
theorem level?_ofSchema_concat {table : RowTable} {keys : List String} {key : String} {s : Schema}
    {level : Layout} (h : (ofSchema table s).level? (keys ++ [key]) = some level) :
    level = (ofSchema table level.toSchema).under table key := by
  induction keys generalizing s with
  | nil =>
    obtain ⟨child, rfl⟩ := find?_ofSchema (level?_singleton.mp h)
    rw [toSchema_under, toSchema_ofSchema]
  | cons next keys ih =>
    rw [List.cons_append, level?] at h
    split at h
    · next hfind =>
      obtain ⟨child, rfl⟩ := find?_ofSchema hfind
      rw [level?_under (by simp)] at h
      exact ih h
    · exact absurd h (by simp)

theorem rowFilter?_level {table : RowTable} {keys : List String} {s : Schema} {level : Layout}
    (h : (ofSchema table s).level? keys = some level) (filter : RowFilter) :
    level.rowFilter? = some filter ↔
      ∃ container, keys.getLast?.bind table.container? = some container ∧
        filter.itemKey = container.itemKey ∧
        level.find? container.itemKey = some (.branch filter.columns) ∧
        filter.columns.keys ≠ [] ∧ filterKey ∉ level.keys := by
  rcases List.eq_nil_or_concat keys with rfl | ⟨above, key, rfl⟩
  · obtain rfl := Option.some.inj h
    simp [rowFilter?_ofSchema]
  · rw [List.concat_eq_append] at h ⊢
    have hmade := level?_ofSchema_concat h
    have hfilter := rowFilter?_under (rowFilter?_ofSchema table level.toSchema) table key
    have hfind : ∀ name, (ofSchema table level.toSchema).find? name = level.find? name := by
      intro name
      rw [← find?_under table name key, ← hmade]
    rw [← hmade] at hfilter
    rw [hfilter, filterFor?_eq_some_iff, List.getLast?_concat, Option.bind_some, keys_ofSchema,
      keys_toSchema]
    simp only [hfind]

end Layout

/-! ## Taking row filters out -/

namespace Json

def Members.erase (key : String) : Members → Members
  | .nil => .nil
  | .cons k value rest => if k = key then rest.erase key else .cons k value (rest.erase key)

theorem Members.erase_cons_of_ne {k key : String} {b : Bool} (h : b → k ≠ key) (value : Json)
    (rest : Members) :
    (if b then (cons k value rest).erase key else cons k value rest) =
      cons k value (if b then rest.erase key else rest) := by
  cases b with
  | false => rfl
  | true => simp [erase, h rfl]

mutual

/-- The value without what shows the row filters of a layout. -/
def unfiltered (l : Layout) : Json → Json
  | object members =>
    .object (if l.rowFilter?.isSome then (unfilteredMembers l members).erase filterKey
      else unfilteredMembers l members)
  | other => other

/-- The members with the row filters of the levels below taken out. -/
def unfilteredMembers (l : Layout) : Members → Members
  | .nil => .nil
  | .cons key value rest =>
    let kept :=
      match l.find? key with
      | some (.branch child) => unfiltered child value
      | _ => value
    .cons key kept (unfilteredMembers l rest)

end

end Json

namespace Layout

def withFilter? (filter? : Option RowFilter) (l : Layout) : Layout :=
  filter?.elim l l.withFilter

theorem under_eq (table : RowTable) (key : String) (l : Layout) :
    l.under table key = l.withFilter? (l.filterFor? table key) := by
  unfold under
  cases l.filterFor? table key <;> rfl

@[simp] theorem withFilter?_leaf (filter? : Option RowFilter) (k : String) (rest : Layout) :
    (leaf k rest).withFilter? filter? = leaf k (rest.withFilter? filter?) := by
  cases filter? <;> rfl

@[simp] theorem withFilter?_branch (filter? : Option RowFilter) (k : String) (child rest : Layout) :
    (branch k child rest).withFilter? filter? = branch k child (rest.withFilter? filter?) := by
  cases filter? <;> rfl

theorem find?_leaf_of_rest {k key : String} {rest : Layout} {entry : Entry Layout}
    (fresh : k ∉ rest.keys) (h : rest.find? key = some entry) :
    (leaf k rest).find? key = some entry := by
  have hne : k ≠ key := fun he => fresh (he ▸ mem_keys_of_find? h)
  rw [find?, if_neg hne, h]

theorem find?_branch_of_rest {k key : String} {child rest : Layout} {entry : Entry Layout}
    (fresh : k ∉ rest.keys) (h : rest.find? key = some entry) :
    (branch k child rest).find? key = some entry := by
  have hne : k ≠ key := fun he => fresh (he ▸ mem_keys_of_find? h)
  rw [find?, if_neg hne, h]

theorem ne_filterKey {whole : Layout} {k : String} {entry : Entry Layout} {has : Bool}
    (hk : whole.find? k = some entry) (apart : has → whole.find? filterKey = none) :
    has → k ≠ filterKey := by
  rintro hfilter rfl
  rw [apart hfilter] at hk
  exact absurd hk (by simp)

/-- A schema is what is left of the entries of a level `whole` that were made from it, with the row
filter of the level after them. -/
theorem unfiltered_entries (table : RowTable) {s : Schema} (distinct : s.Distinct) (whole : Layout)
    (filter? : Option RowFilter)
    (hfind : ∀ key entry, (ofSchema table s).find? key = some entry → whole.find? key = some entry)
    (apart : filter?.isSome → whole.find? filterKey = none) :
    let kept := Json.unfilteredMembers whole ((ofSchema table s).withFilter? filter?).toMembers
    (if filter?.isSome then kept.erase filterKey else kept) = s.toMembers := by
  induction s generalizing whole filter? with
  | nil =>
    cases filter? with
    | none => rfl
    | some filter => simp [ofSchema, withFilter?, withFilter, toMembers, Json.unfilteredMembers,
        Json.Members.erase, Schema.toMembers]
  | leaf k rest ih =>
    have hk : whole.find? k = some .leaf := hfind k .leaf (by simp [ofSchema, find?])
    have hrest := ih distinct.2 whole filter? (fun key entry h =>
      hfind key entry (find?_leaf_of_rest (by simpa using distinct.1) h)) apart
    simp only [ofSchema, withFilter?_leaf, toMembers, Json.unfilteredMembers, hk]
    rw [Json.Members.erase_cons_of_ne (ne_filterKey hk apart), hrest, Schema.toMembers]
  | branch k child rest ihchild ih =>
    let level := (ofSchema table child).under table k
    have hk : whole.find? k = some (.branch level) :=
      hfind k (.branch level) (by simp [ofSchema, find?, level])
    have hrest := ih distinct.2.2 whole filter? (fun key entry h =>
      hfind key entry (find?_branch_of_rest (by simpa using distinct.1) h)) apart
    have hlevel : (Json.object level.toMembers).unfiltered level = .object child.toMembers := by
      have hfilter := rowFilter?_under (rowFilter?_ofSchema table child) table k
      have hapart : ((ofSchema table child).filterFor? table k).isSome →
          level.find? filterKey = none := by
        intro hsome
        obtain ⟨filter, hsome⟩ := Option.isSome_iff_exists.mp hsome
        have hcontains := (filterFor?_eq_some hsome).2
        rw [contains, Option.isSome_eq_false_iff, Option.isNone_iff_eq_none] at hcontains
        exact (find?_under table filterKey k _).trans hcontains
      have hentries := ihchild distinct.2.1 level ((ofSchema table child).filterFor? table k)
        (by simp [level]) hapart
      rw [Json.unfiltered, hfilter, ← hentries, ← under_eq]
    simp only [ofSchema, withFilter?_branch, toMembers, Json.unfilteredMembers, hk]
    rw [Json.Members.erase_cons_of_ne (ne_filterKey hk apart), hrest, hlevel, Schema.toMembers]

theorem unfiltered_ofSchema (table : RowTable) {s : Schema} (distinct : s.Distinct) :
    (ofSchema table s).toJson.unfiltered (ofSchema table s) = s.toJson := by
  have hentries := unfiltered_entries table distinct (ofSchema table s) none (fun _ _ h => h) (by simp)
  rw [toJson, Json.unfiltered, rowFilter?_ofSchema]
  exact congrArg Json.object hentries

theorem get?_filterKey {level : Layout} {filter : RowFilter} (apart : filterKey ∉ level.keys)
    (h : level.rowFilter? = some filter) :
    level.toJson.get? filterKey = some filter.columns.toJson := by
  change level.toMembers.find? filterKey = some filter.columns.toJson
  induction level with
  | plain => exact absurd h (by simp [rowFilter?])
  | filtered itemKey columns =>
    obtain rfl := Option.some.inj h
    simp [toMembers, Json.Members.find?, toJson]
  | leaf k rest ih | branch k child rest _ ih =>
    rw [toMembers, Json.Members.find?, if_neg (List.ne_of_not_mem_cons apart).symm]
    exact ih (List.not_mem_of_not_mem_cons apart) h

/-! ## The documented extension -/

/-- Each level of a layout has the keys and leaves of its schema. It has a row filter exactly if its
key names a container whose item is one of its own branches and has keys, and no key has the name of
the filter. The columns are then the layout of that item, and are shown under the name. Without what
is shown so, the schema is left. -/
theorem ofSchema_extends (table : RowTable) (s : Schema) :
    (∀ keys, ((ofSchema table s).level? keys).isSome = (s.level? keys).isSome) ∧
    (∀ keys level raw, (ofSchema table s).level? keys = some level → s.level? keys = some raw →
      level.keys = raw.keys ∧
      (∀ key, level.find? key = some .leaf ↔ raw.find? key = some .leaf) ∧
      (∀ filter, level.rowFilter? = some filter ↔
        ∃ container item, keys.getLast?.bind table.container? = some container ∧
          raw.find? container.itemKey = some (.branch item) ∧ item.keys ≠ [] ∧
          filterKey ∉ raw.keys ∧ filter.itemKey = container.itemKey ∧
          (ofSchema table s).level? (keys ++ [container.itemKey]) = some filter.columns) ∧
      ∀ filter ∈ level.rowFilter?, level.toJson.get? filterKey = some filter.columns.toJson) ∧
    (s.Distinct → (ofSchema table s).toJson.unfiltered (ofSchema table s) = s.toJson) := by
  have hlevels : ∀ keys, s.level? keys = ((ofSchema table s).level? keys).map toSchema := by
    intro keys
    rw [← level?_toSchema, toSchema_ofSchema]
  refine ⟨fun keys => by rw [hlevels, Option.isSome_map], ?_, unfiltered_ofSchema table⟩
  intro keys level raw hlevel hraw
  rw [hlevels, hlevel] at hraw
  obtain rfl := Option.some.inj hraw
  have hfilter := rowFilter?_level hlevel
  refine ⟨(keys_toSchema level).symm, ?_, ?_, ?_⟩
  · intro key
    rw [find?_toSchema]
    rcases level.find? key with _ | _ | child <;> simp [Entry.map]
  · intro filter
    rw [hfilter]
    constructor
    · rintro ⟨container, hcontainer, hkey, hitem, hcolumns, hapart⟩
      refine ⟨container, filter.columns.toSchema, hcontainer, ?_, by simpa using hcolumns,
        by simpa using hapart, hkey, ?_⟩
      · rw [find?_toSchema, hitem]
        rfl
      · rw [level?_concat hlevel, level?_singleton, hitem]
    · rintro ⟨container, item, hcontainer, hitem, hcolumns, hapart, hkey, hfound⟩
      rw [level?_concat hlevel, level?_singleton] at hfound
      rw [find?_toSchema, hfound] at hitem
      obtain rfl := Entry.branch.inj (Option.some.inj hitem)
      exact ⟨container, hcontainer, hkey, hfound, by simpa using hcolumns, by simpa using hapart⟩
  · intro filter hmem
    obtain ⟨_, _, _, _, _, hapart⟩ := (hfilter filter).mp hmem
    exact get?_filterKey hapart hmem

/-- A list of users, each with a list of rows of its own. -/
def staffPage : Schema :=
  .branch "user_rows" (.branch "user_row" (.leaf "name"
    (.branch "rows" (.branch "row" (.leaf "day" .nil) .nil) .nil)) .nil) .nil

/-- Users are told apart by their columns, of which one has a row filter of its own. -/
theorem staffPage_extended : ∃ level raw filter nested,
    (ofSchema .standard staffPage).level? ["user_rows"] = some level ∧
    staffPage.level? ["user_rows"] = some raw ∧ staffPage.Distinct ∧
    level.rowFilter? = some filter ∧ filter.columns.level? ["rows"] = some nested ∧
    nested.rowFilter?.isSome ∧ level.toJson.get? filterKey = some filter.columns.toJson ∧
    (ofSchema .standard staffPage).toJson.unfiltered (ofSchema .standard staffPage) =
      staffPage.toJson := by
  have distinct : staffPage.Distinct :=
    ⟨by decide, ⟨by decide, ⟨by decide, ⟨by decide, ⟨by decide, ⟨by decide, trivial⟩, trivial⟩,
      trivial⟩⟩, trivial⟩, trivial⟩
  obtain ⟨-, hlevels, hshown⟩ := ofSchema_extends .standard staffPage
  obtain ⟨-, -, hfilter, hkey⟩ := hlevels ["user_rows"] _ _ rfl rfl
  have hsome := (hfilter ⟨"user_row", _⟩).mpr
    ⟨⟨"rows", "user_row"⟩, _, by decide, rfl, by decide, by decide, rfl, rfl⟩
  exact ⟨_, _, _, _, rfl, rfl, distinct, hsome, rfl, by decide, hkey _ hsome, hshown distinct⟩

end Layout

end PageNav
