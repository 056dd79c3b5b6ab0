import PageNav.Proofs.Meanings

/-!
# The name of row filters

A row filter is shown under a name of its own, and no key of its level has that name. A key whose camel
case name it is hides the row filter all the same, since names are first looked for among the keys.
-/

namespace PageNav

open Text

/-! ## Levels that hops lead to -/

namespace Spot

/-- Whether what lies below a spot is a level of the layout. -/
def LiesIn (l : Layout) (s : Spot) : Prop :=
  ∀ level ∈ s.layout, ∃ keys, l.level? keys = some level

theorem liesIn_branch {l level child : Layout} {keys : List String} {key : String}
    (h : l.level? keys = some level) (hfind : level.find? key = some (.branch child)) :
    ∃ keys, l.level? keys = some child :=
  ⟨keys ++ [key], (Layout.level?_concat h key).trans (Layout.level?_singleton.mpr hfind)⟩

theorem LiesIn.hop {attr : String} {table : RowTable} {schema : Schema} {s t : Spot} {hop : Hop}
    (lies : s.LiesIn (.ofSchema table schema)) (h : s.hop? attr hop = some t) :
    t.LiesIn (.ofSchema table schema) := by
  cases hop with
  | child name =>
    obtain ⟨level, hlevel, h⟩ := Option.bind_eq_some_iff.mp h
    obtain ⟨key, -, h⟩ := Option.bind_eq_some_iff.mp h
    obtain rfl := Option.some.inj h
    obtain ⟨keys, hkeys⟩ := lies level hlevel
    intro child hchild
    split at hchild
    · next hfind =>
      obtain rfl := Option.some.inj hchild
      exact liesIn_branch hkeys hfind
    · exact absurd hchild.symm (Option.some_ne_none child)
  | row column text =>
    obtain ⟨filter, hfilter, h⟩ := Option.bind_eq_some_iff.mp h
    obtain ⟨key, -, h⟩ := Option.bind_eq_some_iff.mp h
    obtain rfl := Option.some.inj h
    obtain ⟨level, hlevel, hrow⟩ := Option.bind_eq_some_iff.mp hfilter
    obtain ⟨keys, hkeys⟩ := lies level hlevel
    obtain ⟨container, -, -, hitem, -⟩ := (Layout.rowFilter?_level hkeys filter).mp hrow
    intro columns hcolumns
    obtain rfl := Option.some.inj hcolumns
    exact liesIn_branch hkeys hitem

theorem follow?_liesIn {attr : String} {table : RowTable} {schema : Schema} {hops : List Hop}
    {s t : Spot} (lies : s.LiesIn (.ofSchema table schema)) (h : s.follow? attr hops = some t) :
    t.LiesIn (.ofSchema table schema) := by
  induction hops generalizing s with
  | nil =>
    obtain rfl := Option.some.inj h
    exact lies
  | cons hop hops ih =>
    obtain ⟨u, hu, h⟩ := Option.bind_eq_some_iff.mp h
    exact ih (lies.hop hu) h

theorem liesIn_ofSchema (schema : Schema) (settings : Settings) :
    (ofSchema schema settings).LiesIn (.ofSchema settings.rowTable schema) := by
  intro level hlevel
  obtain rfl := Option.some.inj hlevel
  exact ⟨[], rfl⟩

end Spot

/-! ## What the name of a row filter means -/

namespace Nav

theorem filterKey_apart {schema : Schema} {settings : Settings} {hops : List Hop} {place : Place}
    {filter : RowFilter}
    (reached : (Spot.ofSchema schema settings).follow? settings.testAttribute hops =
      some place.toSpot)
    (filtered : place.rowFilter? = some filter) :
    ∃ level ∈ place.layout, level.toJson.get? filterKey = some filter.columns.toJson ∧
      level.keys = place.keys ∧ filterKey ∉ place.keys := by
  obtain ⟨level, hlevel, hfilter⟩ := Option.bind_eq_some_iff.mp filtered
  have hkeys : level.keys = place.keys := (Spot.keys_of_layout hlevel).symm
  obtain ⟨above, habove⟩ := Spot.follow?_liesIn (Spot.liesIn_ofSchema schema settings) reached
    level hlevel
  obtain ⟨_, _, _, _, _, hapart⟩ := (Layout.rowFilter?_level habove filter).mp hfilter
  exact ⟨level, hlevel, Layout.get?_filterKey hapart hfilter, hkeys, hkeys ▸ hapart⟩

/-- The name of a row filter means the row filter exactly if it is the camel case name of no key. If
it is, it means the same as the first such key. Operations never come into it. -/
theorem resolve_filterKey {schema : Schema} {settings : Settings} {hops : List Hop} {place : Place}
    {filter : RowFilter}
    (reached : (Spot.ofSchema schema settings).follow? settings.testAttribute hops =
      some place.toSpot)
    (filtered : place.rowFilter? = some filter) (names : OperationNames) (n : Navigator) :
    (∃ level ∈ place.layout, level.toJson.get? filterKey = some filter.columns.toJson) ∧
    ((resolve place filterKey names n).1 = some (.filter place filter) ↔
      ∀ key ∈ place.keys, camelCase key ≠ filterKey) ∧
    ∀ key, place.keys.find? (camelCase · == filterKey) = some key →
      ∃ found ∈ (child place key n).1,
        resolve place filterKey names n = (some (.child found), (child place key n).2) := by
  obtain ⟨level, hlevel, hshown, hkeys, hapart⟩ := filterKey_apart reached filtered
  have howned : place.Owns filterKey := .inr (.inr (.inl ⟨rfl, by rw [filtered]; rfl⟩))
  have hname := Spot.child?_of_layout hlevel filterKey
  rw [Layout.resolve?_of_not_mem (hkeys ▸ hapart), hkeys] at hname
  refine ⟨⟨level, hlevel, hshown⟩, ?_, ?_⟩
  · rw [resolve_of_owned howned]
    cases hfind : place.keys.find? (camelCase · == filterKey) with
    | none =>
      rw [hfind, Option.map_none] at hname
      have hfilter : place.label? filterKey = some (.filter place filter) := by
        rw [Place.label?, if_pos rfl, filtered, Option.map_some]
      rw [ownMeaning_of_none hname]
      exact iff_of_true hfilter fun key hkey => by simpa using List.find?_eq_none.mp hfind key hkey
    | some key =>
      rw [hfind, Option.map_some] at hname
      have halias : camelCase key = filterKey := by simpa using List.find?_some hfind
      rw [ownMeaning_of_spot hname]
      exact iff_of_false (by simp) fun h => h key (List.mem_of_find?_eq_some hfind) halias
  · intro key hfind
    have hmem : key ∈ level.keys := hkeys ▸ List.mem_of_find?_eq_some hfind
    have hkey := Spot.child?_of_layout hlevel key
    rw [Layout.resolve?_of_mem hmem, Option.map_some] at hkey
    rw [hfind, Option.map_some] at hname
    rw [child_of_spot hkey, resolve_of_owned howned, ownMeaning_of_spot hname]
    exact ⟨_, rfl, rfl⟩

/-- A list of users has its row filter by that name, also if the host has such an operation. -/
theorem users_filtered_by_name : ∃ (place : Place) (filter : RowFilter),
    (Spot.ofSchema Layout.staffPage {}).follow? ({} : Settings).testAttribute [.child "userRows"] =
      some place.toSpot ∧
    place.rowFilter? = some filter ∧ filter.columns.keys = ["name", "rows"] ∧
    (resolve place filterKey (.ofList [filterKey]) (.ofSchema Layout.staffPage {})).1 =
      some (.filter place filter) := by
  let columns : Layout := .leaf "name" (.branch "rows" (.branch "row" (.leaf "day" .plain)
    (.filtered "row" (.leaf "day" .plain))) .plain)
  let users : Place :=
    ⟨⟨"user_rows", some (.branch "user_row" columns (.filtered "user_row" columns))⟩, ⟨1⟩⟩
  have reached : (Spot.ofSchema Layout.staffPage {}).follow? ({} : Settings).testAttribute
      [.child "userRows"] = some users.toSpot := by decide
  have filtered : users.rowFilter? = some ⟨"user_row", columns⟩ := rfl
  obtain ⟨-, hmeant, -⟩ := resolve_filterKey reached filtered (.ofList [filterKey])
    (.ofSchema Layout.staffPage {})
  exact ⟨users, _, reached, filtered, by decide, hmeant.mpr (by decide)⟩

/-- A list of rows beside which stands a key whose camel case name is that of row filters. -/
def capitalPage : Schema :=
  .branch "rows" (.branch "row" (.leaf "a" .nil) (.leaf "With" .nil)) .nil

/-- The row filter of a list is not found by its name, whatever operations the host has. -/
theorem capital_key_hides_filter : ∃ n log rows, Tour capitalPage {} n log ∧
    ([.child "rows"], some rows) ∈ log ∧ rows.rowFilter?.isSome ∧
    ∀ names, ∃ found, (resolve rows filterKey names n).1 = some (.child found) := by
  have bound : (4 : Nat) ≤ UInt32.size := by decide
  obtain ⟨hsize, -⟩ := Navigator.size_ofSchema capitalPage {}
  let start := (Navigator.ofSchema capitalPage {}).root
  have root : start.toSpot = _ := Navigator.ofSchema_root capitalPage {}
  have hrows : start.toSpot.follow? ({} : Settings).testAttribute [.child "rows"] =
      some ⟨"rows", some (.branch "row" (.leaf "a" .plain)
        (.leaf "With" (.filtered "row" (.leaf "a" .plain))))⟩ := by
    rw [root]
    decide
  obtain ⟨n, log, rows, tour, -, hmem, hspot, -⟩ := Tour.start.follow List.mem_cons_self hrows
    (by simp only [List.length_cons, List.length_nil]; omega)
  have hchild : rows.child? filterKey = some ⟨"rows With", none⟩ := by
    rw [hspot]
    decide
  have howned : rows.Owns filterKey := by
    rw [← Spot.defines_iff, hspot]
    decide
  have hmeant (names : OperationNames) : (resolve rows filterKey names n).1 =
      some (.child (n.atlas.visit ⟨"rows With", none⟩).1) := by
    rw [resolve_of_owned howned, ownMeaning_of_spot hchild]
  exact ⟨n, log, rows, tour, hmem, by rw [hspot]; rfl, fun names => ⟨_, hmeant names⟩⟩

end Nav

end PageNav
