import PageNav.Json.Typed

/-!
# Rows and their containers

A container is a key for a group that repeats, such as `rows` or `user_rows`, and its item is the key
for one of the group, such as `row` or `user_row`. A table pairs the words that end container keys
with the words that end item keys.
-/

namespace PageNav

/-- Container words with their item words, each container word once. -/
structure RowTable where
  pairs : List (String × String)
deriving DecidableEq, Repr

/-- A key that names a container. -/
structure Container where
  /-- The container word that ends the key. -/
  word : String
  itemKey : String
deriving DecidableEq, Repr

namespace RowTable

def empty : RowTable := ⟨[]⟩

/-- The table that is used if none is chosen. -/
def standard : RowTable := ⟨[("rows", "row")]⟩

instance : Inhabited RowTable := ⟨standard⟩

def insertPair (word item : String) : List (String × String) → List (String × String)
  | [] => [(word, item)]
  | (w, i) :: rest => if w = word then (w, item) :: rest else (w, i) :: insertPair word item rest

/-- A word that is there already keeps its place and gets the new item word. A new one goes last. -/
def insert (table : RowTable) (word item : String) : RowTable :=
  ⟨insertPair word item table.pairs⟩

def ofList (pairs : List (String × String)) : RowTable :=
  pairs.foldl (fun table (word, item) => table.insert word item) empty

def isEmpty (table : RowTable) : Bool :=
  table.pairs.isEmpty

/-- Whether two tables hold the same pairs in any order. -/
def same (s t : RowTable) : Bool :=
  s.pairs.length == t.pairs.length && s.pairs.all t.pairs.contains

/-- What stands in `key` before `word`, if `word` is the last word of the key: it is not empty, and it
is the whole key or follows a separator. -/
def stem? (word key : List Char) : Option (List Char) :=
  let stem := key.take (key.length - word.length)
  if !word.isEmpty && word.isSuffixOf key && stem.getLast?.all (fun c => c = '_' || c = '-') then
    some stem
  else none

/-- The container that `key` is by one pair of a table. -/
def containerBy? (key : String) (pair : String × String) : Option Container :=
  (stem? pair.1.toList key.toList).map fun stem => ⟨pair.1, String.ofList stem ++ pair.2⟩

/-- The one with more bytes in its word, or the second one. -/
def longer (c d : Container) : Container :=
  if c.word.utf8ByteSize ≤ d.word.utf8ByteSize then d else c

/-- The container that `key` is, by the longest word that ends it. -/
def container? (table : RowTable) (key : String) : Option Container :=
  (table.pairs.filterMap (containerBy? key)).foldl
    (fun best c => some (best.elim c (longer · c))) none

/-! ## JSON -/

def toJson (table : RowTable) : Json :=
  .object (.ofList (table.pairs.map fun (word, item) => (word, .string item)))

/-- Takes a table from a text: an object of strings. -/
def reader : Json.Reader RowTable :=
  .map (fun table word => do
    .colon
    return table.insert word (← .string)) empty

def ofText (text : String) : Except Json.Fault RowTable :=
  reader.run text

end RowTable

end PageNav
