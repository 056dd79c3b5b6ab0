import PageNav.Navigation.Navigator

/-!
# What names mean

A name at a place means at most one thing. An operation of the host is meant only where the place
does not give the name a meaning itself.
-/

namespace PageNav

/-- An operation of the host, to be run at a place. -/
structure Operation where
  place : Place
  name : String
  /-- Whether it is the operation that scopes to the place. -/
  scoping : Bool
deriving DecidableEq, Repr

inductive Meaning where
  | child (place : Place)
  | filter (container : Place) (filter : RowFilter)
  /-- The path of the place itself. -/
  | path (text : String)
  | operation (operation : Operation)
deriving DecidableEq, Repr

namespace Nav

/-- What a name means at a place that gives it a meaning itself. -/
def ownMeaning (place : Place) (name : String) : Nav (Option Meaning) := do
  if let some child ← child place name then return some (.child child)
  if name = filterKey then
    if let some filter := place.rowFilter? then return some (.filter place filter)
  if name = pathKey then return some (.path place.path)
  return none

/-- What a name means at a place, if the host has these operations. -/
def resolve (place : Place) (name : String) (operations : OperationNames) :
    Nav (Option Meaning) := do
  if place.isElement && operations.contains name && !place.defines name then
    let scoping := name == (← get).settings.scopingOperation
    return some (.operation { place, name, scoping })
  else ownMeaning place name

end Nav

end PageNav
