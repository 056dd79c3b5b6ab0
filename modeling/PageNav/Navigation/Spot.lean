import PageNav.Page.Layout
import PageNav.Path.Selector
import PageNav.Text.CamelCase

/-!
# Spots

A spot is a path together with what lies below it. Moving from spot to spot needs nothing but the
layout.
-/

namespace PageNav

open Text

/-- The name by which every place gives its own path. -/
def pathKey : String := "___prefix"

namespace Layout

/-- The key that `name` stands for: the key itself, or else the first key that is `name` in camel
case. -/
def resolve? (l : Layout) (name : String) : Option String :=
  if l.contains name then some name else l.keys.find? (camelCase · == name)

end Layout

namespace Path

/-- The path of what lies one step below a path. -/
def below (parent step : String) : String :=
  if parent.isEmpty then step else parent ++ " " ++ step

/-- The steps of a route: names with dots or blanks between them. -/
def steps (route : String) : List String :=
  ((route.toList.splitOnP fun c => c = '.' || isBlank c).filter (!·.isEmpty)).map String.ofList

end Path

/-- A path and the layout below it. A leaf has nothing below it. -/
structure Spot where
  path : String
  layout : Option Layout
deriving DecidableEq, Repr, Inhabited

namespace Spot

def isLeaf (s : Spot) : Bool :=
  s.layout.isNone

/-- Whether operations of the host can be run here. They cannot at the root, which stands for no
element. -/
def isElement (s : Spot) : Bool :=
  s.layout.isNone || !s.path.isEmpty

def keys (s : Spot) : List String :=
  s.layout.elim [] Layout.keys

def rowFilter? (s : Spot) : Option RowFilter :=
  s.layout.bind Layout.rowFilter?

def selector (s : Spot) (attr : String) : String :=
  Selector.ofPath attr s.path

/-- The spot under a key or its camel case name. -/
def child? (s : Spot) (name : String) : Option Spot := do
  let level ← s.layout
  let key ← level.resolve? name
  let child :=
    match level.find? key with
    | some (.branch child) => some child
    | _ => none
  return ⟨Path.below s.path key, child⟩

/-- The step to a row that holds `text` in one column. -/
def rowStep (attr itemKey column text : String) : String :=
  itemKey ++ ":has(" ++ Selector.ofName attr column ++ ":contains('" ++ escape text ++ "'))"

/-- The row of a container that holds `text` in a column, given by its key or camel case name. -/
def row? (s : Spot) (attr : String) (filter : RowFilter) (column text : String) : Option Spot := do
  let key ← filter.columns.resolve? column
  return ⟨Path.below s.path (rowStep attr filter.itemKey key text), some filter.columns⟩

/-- Whether the spot gives `name` a meaning itself: a key or its camel case name, its row filter or
its path. -/
def defines (s : Spot) (name : String) : Bool :=
  name == pathKey ||
    s.layout.any fun level =>
      (level.resolve? name).isSome || (name == filterKey && level.rowFilter?.isSome)

end Spot

end PageNav
