/-!
# Operation names

The names of all operations that a host offers.
-/

namespace PageNav

structure OperationNames where
  names : List String
deriving DecidableEq, Repr, Inhabited

namespace OperationNames

/-- The set of the names listed, each once. -/
def ofList (names : List String) : OperationNames :=
  ⟨names.eraseDups⟩

def contains (s : OperationNames) (name : String) : Bool :=
  s.names.contains name

def size (s : OperationNames) : Nat :=
  s.names.length

def isEmpty (s : OperationNames) : Bool :=
  s.names.isEmpty

end OperationNames

end PageNav
