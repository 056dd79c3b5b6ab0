import PageNav.Page.Schema
import PageNav.Page.RowTable
import PageNav.Json.Printer

/-!
# Layouts

The layout of a page is its schema together with the row filters of its containers. A container has
a row filter when its item is a branch with keys, which are then the columns that rows can be told by.
-/

namespace PageNav

/-- The key under which a row filter is shown. A container with a key of this name has none. -/
def filterKey : String := "with"

/-- One level of a layout: its entries in order, and at their end the row filter, if there is one. -/
inductive Layout where
  | plain
  | filtered (itemKey : String) (columns : Layout)
  | leaf (key : String) (rest : Layout)
  | branch (key : String) (child rest : Layout)
deriving DecidableEq, Repr, Inhabited

/-- The filter of a container: rows are told by the columns of its item. -/
structure RowFilter where
  itemKey : String
  columns : Layout
deriving DecidableEq, Repr

namespace Layout

def size : Layout → Nat
  | plain => 0
  | filtered _ _ => 0
  | leaf _ rest => rest.size + 1
  | branch _ _ rest => rest.size + 1

def keys : Layout → List String
  | plain => []
  | filtered _ _ => []
  | leaf k rest => k :: rest.keys
  | branch k _ rest => k :: rest.keys

@[simp] theorem length_keys (l : Layout) : l.keys.length = l.size := by
  induction l <;> simp_all [keys, size]

def isEmpty (l : Layout) : Bool :=
  l.size == 0

def find? (key : String) : Layout → Option (Entry Layout)
  | plain => none
  | filtered _ _ => none
  | leaf k rest => if k = key then some .leaf else rest.find? key
  | branch k child rest => if k = key then some (.branch child) else rest.find? key

theorem mem_keys_of_find? {l : Layout} {key : String} {entry : Entry Layout}
    (h : l.find? key = some entry) : key ∈ l.keys := by
  induction l with
  | plain => exact absurd h (by simp [find?])
  | filtered _ _ => exact absurd h (by simp [find?])
  | leaf k rest ih =>
    rw [find?] at h
    split at h
    · next hk => exact hk ▸ List.mem_cons_self
    · exact List.mem_cons_of_mem _ (ih h)
  | branch k child rest _ ih =>
    rw [find?] at h
    split at h
    · next hk => exact hk ▸ List.mem_cons_self
    · exact List.mem_cons_of_mem _ (ih h)

/-- What a level says of the levels below it, it says of the one under a key. -/
theorem of_find? {P : Layout → Prop} (hleaf : ∀ k rest, P (leaf k rest) → P rest)
    (hbranch : ∀ k child rest, P (branch k child rest) → P child ∧ P rest) {l c : Layout} (h : P l)
    {key : String} (hfind : l.find? key = some (.branch c)) : P c := by
  induction l with
  | plain => exact absurd hfind (by simp [find?])
  | filtered _ _ => exact absurd hfind (by simp [find?])
  | leaf k rest ih =>
    rw [find?] at hfind
    split at hfind
    · exact absurd hfind (by simp)
    · exact ih (hleaf k rest h) hfind
  | branch k child rest _ ih =>
    obtain ⟨hchild, hrest⟩ := hbranch k child rest h
    rw [find?] at hfind
    split at hfind
    · obtain rfl := Entry.branch.inj (Option.some.inj hfind)
      exact hchild
    · exact ih hrest hfind

def contains (l : Layout) (key : String) : Bool :=
  (l.find? key).isSome

def rowFilter? : Layout → Option RowFilter
  | plain => none
  | filtered itemKey columns => some ⟨itemKey, columns⟩
  | leaf _ rest => rest.rowFilter?
  | branch _ _ rest => rest.rowFilter?

/-- Puts a row filter at the end of a level that has none. -/
def withFilter (filter : RowFilter) : Layout → Layout
  | plain => filtered filter.itemKey filter.columns
  | filtered itemKey columns => filtered itemKey columns
  | leaf k rest => leaf k (rest.withFilter filter)
  | branch k child rest => branch k child (rest.withFilter filter)

/-- The row filter that a level gets under `key`. -/
def filterFor? (table : RowTable) (key : String) (level : Layout) : Option RowFilter := do
  let container ← table.container? key
  match level.find? container.itemKey with
  | some (.branch columns) =>
    if columns.isEmpty || level.contains filterKey then none
    else some ⟨container.itemKey, columns⟩
  | _ => none

theorem filterFor?_eq_some {table : RowTable} {key : String} {level : Layout} {filter : RowFilter}
    (h : level.filterFor? table key = some filter) :
    level.find? filter.itemKey = some (.branch filter.columns) ∧
      level.contains filterKey = false := by
  obtain ⟨container, -, hfound⟩ := Option.bind_eq_some_iff.mp h
  split at hfound
  · next columns hitem =>
    split at hfound
    · exact absurd hfound (by simp)
    · next hnone =>
      obtain rfl := Option.some.inj hfound
      simp only [Bool.or_eq_true, not_or, Bool.not_eq_true] at hnone
      exact ⟨hitem, hnone.2⟩
  · exact absurd hfound (by simp)

/-- A level under `key`, with its row filter if it gets one. -/
def under (table : RowTable) (key : String) (level : Layout) : Layout :=
  match level.filterFor? table key with
  | some filter => level.withFilter filter
  | none => level

/-- The layout of a schema. The root stands under no key and so gets no row filter. -/
def ofSchema (table : RowTable) : Schema → Layout
  | .nil => plain
  | .leaf k rest => leaf k (ofSchema table rest)
  | .branch k child rest => branch k ((ofSchema table child).under table k) (ofSchema table rest)

@[simp] theorem keys_withFilter (filter : RowFilter) (l : Layout) :
    (l.withFilter filter).keys = l.keys := by
  induction l <;> simp_all [withFilter, keys]

@[simp] theorem keys_under (table : RowTable) (key : String) (l : Layout) :
    (l.under table key).keys = l.keys := by
  unfold under
  split <;> simp

@[simp] theorem keys_ofSchema (table : RowTable) (s : Schema) : (ofSchema table s).keys = s.keys := by
  induction s <;> simp_all [ofSchema, keys, Schema.keys]

/-! ## Signature

A text that tells layouts apart. A row filter is marked by a plus sign and so is not taken for a key
of the schema. -/

/-- A separating comma, unless nothing stands before it. -/
def comma (isFirst : Bool) : List Char :=
  if isFirst then [] else [',']

/-- The entries of a level and its row filter. `isFirst` says that nothing stands before them. -/
def signatureChars (isFirst : Bool) : Layout → List Char
  | plain => []
  | filtered itemKey columns =>
    comma isFirst ++ '+' :: filterKey.toList ++ '(' :: Json.quote itemKey ++ [')', ':', '{'] ++
      columns.signatureChars true ++ ['}']
  | leaf k rest =>
    comma isFirst ++ Json.quote k ++ [':', 'n', 'u', 'l', 'l'] ++ rest.signatureChars false
  | branch k child rest =>
    comma isFirst ++ Json.quote k ++ [':', '{'] ++ child.signatureChars true ++ '}' ::
      rest.signatureChars false

def signature (l : Layout) : String :=
  String.ofList ('{' :: l.signatureChars true ++ ['}'])

/-! ## Equality -/

/-- Whether every entry on the left has its like on the right, and the row filters are alike. -/
def entriesIn : Layout → Layout → Bool
  | plain, other => other.rowFilter?.isNone
  | filtered itemKey columns, other =>
    match other.rowFilter? with
    | some filter =>
      itemKey == filter.itemKey && columns.size == filter.columns.size &&
        columns.entriesIn filter.columns
    | none => false
  | leaf k rest, other => (other.find? k).any (· matches .leaf) && rest.entriesIn other
  | branch k child rest, other =>
    (match other.find? k with
      | some (.branch c) => child.size == c.size && child.entriesIn c
      | _ => false) && rest.entriesIn other

/-- Whether two layouts have the same entries in any order and the same signature, which brings in
the order. -/
def same (l m : Layout) : Bool :=
  l.size == m.size && l.entriesIn m && l.signature == m.signature

/-! ## JSON -/

def toMembers : Layout → Json.Members
  | plain => .nil
  | filtered _ columns => .cons filterKey (.object columns.toMembers) .nil
  | leaf k rest => .cons k .null rest.toMembers
  | branch k child rest => .cons k (.object child.toMembers) rest.toMembers

/-- The schema with each row filter under a key of its own, after the other keys. -/
def toJson (l : Layout) : Json :=
  .object l.toMembers

end Layout

end PageNav
