import PageNav.Error
import PageNav.Json.Reader

/-!
# Schemas

A schema describes a page: keys in order, each either a leaf or a branch with keys of its own. Keys
of one level are different from each other in every schema that is read or built here.
-/

namespace PageNav

inductive Entry (α : Type) where
  | leaf
  | branch (child : α)
deriving DecidableEq, Repr

inductive Schema where
  | nil
  | leaf (key : String) (rest : Schema)
  | branch (key : String) (child rest : Schema)
deriving DecidableEq, Repr, Inhabited

namespace Schema

def cons (key : String) (entry : Entry Schema) (rest : Schema) : Schema :=
  match entry with
  | .leaf => leaf key rest
  | .branch child => branch key child rest

def size : Schema → Nat
  | nil => 0
  | leaf _ rest => rest.size + 1
  | branch _ _ rest => rest.size + 1

def keys : Schema → List String
  | nil => []
  | leaf k rest => k :: rest.keys
  | branch k _ rest => k :: rest.keys

@[simp] theorem length_keys (s : Schema) : s.keys.length = s.size := by
  induction s <;> simp_all [keys, size]

def find? (key : String) : Schema → Option (Entry Schema)
  | nil => none
  | leaf k rest => if k = key then some .leaf else rest.find? key
  | branch k child rest => if k = key then some (.branch child) else rest.find? key

/-- A key that is there already keeps its place and gets the new entry. A new key goes last. -/
def insert (key : String) (entry : Entry Schema) : Schema → Schema
  | nil => cons key entry nil
  | leaf k rest => if k = key then cons k entry rest else leaf k (rest.insert key entry)
  | branch k child rest =>
    if k = key then cons k entry rest else branch k child (rest.insert key entry)

/-- Whether the keys of each level are different from each other. -/
def Distinct : Schema → Prop
  | nil => True
  | leaf k rest => k ∉ rest.keys ∧ rest.Distinct
  | branch k child rest => k ∉ rest.keys ∧ child.Distinct ∧ rest.Distinct

/-- Whether every entry on the left has its like on the right. -/
def entriesIn : Schema → Schema → Bool
  | nil, _ => true
  | leaf k rest, other => other.find? k = some .leaf && rest.entriesIn other
  | branch k child rest, other =>
    (match other.find? k with
      | some (.branch c) => child.size == c.size && child.entriesIn c
      | _ => false) && rest.entriesIn other

/-- Whether two schemas are the same when the order of keys does not count. -/
def same (s t : Schema) : Bool :=
  s.size == t.size && s.entriesIn t

/-! ## JSON -/

def toMembers : Schema → Json.Members
  | nil => .nil
  | leaf k rest => .cons k .null rest.toMembers
  | branch k child rest => .cons k (.object child.toMembers) rest.toMembers

/-- A leaf is written as `null` and a branch as an object. -/
def toJson (s : Schema) : Json :=
  .object s.toMembers

mutual

/-- The entry that a value at `path` stands for. -/
def entryOfJson (path : List String) : Json → Except Error (Entry Schema)
  | .null => return .leaf
  | .object members => return .branch (← ofMembers path members)
  | .bool _ => throw (.schemaShape path .bool)
  | .number _ => throw (.schemaShape path .number)
  | .string _ => throw (.schemaShape path .string)
  | .array _ => throw (.schemaShape path .array)

/-- The schema with the given members, or its first wrong value in the order of the text. -/
def ofMembers (path : List String) : Json.Members → Except Error Schema
  | .nil => return nil
  | .cons key value rest => do
    let entry ← entryOfJson (path ++ [key]) value
    return cons key entry (← ofMembers path rest)

end

def ofJson : Json → Except Error Schema
  | .object members => ofMembers [] members
  | other => throw (.schemaShape [] other.kind)

/-- Reads a schema. The text is read to its end before its shape is looked at. -/
def ofText (text : String) : Except Error Schema :=
  match Json.ofText text with
  | .ok json => ofJson json
  | .error fault => throw (.schemaText fault)

end Schema

end PageNav
