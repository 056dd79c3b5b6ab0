import PageNav.Navigation.Spot
import PageNav.Navigation.SymbolTable

/-!
# The atlas

The atlas numbers the spots that have been visited, so that a spot visited again is the same place.
Spots are told apart by their path and the signature of their layout.
-/

namespace PageNav

structure PlaceId where
  index : UInt32
deriving DecidableEq, Hashable, Repr, Inhabited

/-- A spot that has been visited. -/
structure Place extends Spot where
  id : PlaceId
deriving DecidableEq, Repr, Inhabited

/-- What spots are told apart by. -/
structure PlaceKey where
  path : Symbol
  /-- The signature of the layout. A leaf has none. -/
  signature : Option Symbol
deriving DecidableEq, Hashable, Repr

structure Atlas where
  symbols : SymbolTable := {}
  /-- The places in the order of their numbers. -/
  places : Array Place := #[]
  known : Std.HashMap PlaceKey Place := ∅
  /-- How often a spot was visited that was known already. -/
  hits : Nat := 0
deriving Inhabited

namespace Atlas

/-- The key of a spot. Texts that have no symbol yet get one. -/
def keyOf (a : Atlas) (spot : Spot) : PlaceKey × SymbolTable :=
  let (path, symbols) := a.symbols.insert spot.path
  match spot.layout with
  | none => (⟨path, none⟩, symbols)
  | some level =>
    let (signature, symbols) := symbols.insert level.signature
    (⟨path, some signature⟩, symbols)

/-- The place of a spot, which is a new one if the spot is visited for the first time. -/
def visit (a : Atlas) (spot : Spot) : Place × Atlas :=
  let (key, symbols) := a.keyOf spot
  match a.known[key]? with
  | some place => (place, { a with symbols, hits := a.hits + 1 })
  | none =>
    let place : Place := { spot with id := ⟨a.places.size.toUInt32⟩ }
    (place, { a with symbols, places := a.places.push place, known := a.known.insert key place })

def place? (a : Atlas) (id : PlaceId) : Option Place :=
  if id.index < a.places.size.toUInt32 then a.places[id.index.toNat]? else none

end Atlas

end PageNav
