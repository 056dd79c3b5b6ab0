import PageNav.Navigation.Atlas
import PageNav.Settings
import PageNav.Host.OperationNames

/-!
# Navigators

A navigator holds the layout of one page and the atlas of the places that were visited on it. It is
shared by everything that is run against the page, and its atlas only grows.
-/

namespace PageNav

structure Navigator where
  settings : Settings
  layout : Layout
  root : Place
  atlas : Atlas
  /-- The names of the host's operations, once a host has been asked for them. -/
  operations : Option OperationNames := none
  /-- How often a host was asked for the names of its operations. -/
  captures : Nat := 0
deriving Inhabited

/-- What uses a navigator and may visit places. -/
abbrev Nav := StateM Navigator

namespace Navigator

structure Stats where
  placesBuilt : Nat
  hits : Nat
  captures : Nat
deriving DecidableEq, Repr

def stats (n : Navigator) : Stats where
  placesBuilt := n.atlas.places.size
  hits := n.atlas.hits
  captures := n.captures

/-- The navigator of a schema. The settings are taken as they are. -/
def ofSchema (schema : Schema) (settings : Settings := {}) : Navigator :=
  let layout := Layout.ofSchema settings.rowTable schema
  let (root, atlas) := ({} : Atlas).visit ⟨"", some layout⟩
  { settings, layout, root, atlas }

def ofSchema? (schema : Schema) (settings : Settings) : Except Error Navigator := do
  settings.check
  return ofSchema schema settings

/-- The navigator of a schema that is read from a text. The schema is looked at first. -/
def ofText? (text : String) (settings : Settings) : Except Error Navigator := do
  ofSchema? (← Schema.ofText text) settings

def place? (n : Navigator) (id : PlaceId) : Option Place :=
  n.atlas.place? id

end Navigator

namespace Nav

def visit? : Option Spot → Nav (Option Place)
  | none => return none
  | some spot => modifyGet fun n =>
    let (place, atlas) := n.atlas.visit spot
    (some place, { n with atlas })

/-- Goes to a child, by its key or its camel case name. -/
def child (place : Place) (name : String) : Nav (Option Place) :=
  visit? (place.child? name)

/-- Goes down step by step, as far as there are steps. -/
def descend (place : Place) : List String → Nav (Option Place)
  | [] => return some place
  | step :: steps => do
    match ← child place step with
    | none => return none
    | some place => descend place steps

/-- Goes down a route, whose steps are separated by dots or blanks. -/
def walk (place : Place) (route : String) : Nav (Option Place) :=
  descend place (Path.steps route)

/-- Goes to the row of a container that holds `text` in a column. -/
def row (container : Place) (filter : RowFilter) (column text : String) : Nav (Option Place) := do
  visit? (container.row? (← get).settings.testAttribute filter column text)

end Nav

end PageNav
