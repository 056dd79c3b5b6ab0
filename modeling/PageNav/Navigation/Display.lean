import PageNav.Navigation.Navigator
import PageNav.Text.Literal

/-!
# Showing places

Texts that show a place or a row filter with its fields, for a reader who looks for a fault.
-/

namespace PageNav

open Text

def PlaceId.display (id : PlaceId) : String :=
  s!"NodeId({id.index})"

def Place.display (place : Place) : String :=
  s!"Node \x7b id: {place.id.display}, prefix: {literal place.path} \x7d"

/-- The text of a row filter, with the place of its container. -/
def RowFilter.display (filter : RowFilter) (container : Place) : String :=
  let columns := ", ".intercalate (filter.columns.keys.map literal)
  s!"RowFilter \x7b container: {container.display}, item_key: {literal filter.itemKey}, " ++
    s!"columns: [{columns}] \x7d"

end PageNav
