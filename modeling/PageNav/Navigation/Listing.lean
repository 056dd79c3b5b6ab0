import PageNav.Navigation.Navigator

/-!
# Listings

A listing shows the whole tree of a page: a line for each key with its path or selector, and below
it, two spaces deeper, the listing of what lies under the key. A row filter comes before the keys.
-/

namespace PageNav

/-- The control codes that colour a listing. -/
structure Palette where
  key : String
  path : String
  filter : String
  sign : String
  reset : String
deriving DecidableEq, Repr

namespace Palette

def plain : Palette := ⟨"", "", "", "", ""⟩

/-- Blue keys, green paths, yellow filters and dim signs. -/
def colored : Palette := ⟨"\x1b[34m", "\x1b[32m", "\x1b[33m", "\x1b[2m", "\x1b[0m"⟩

end Palette

structure ListingStyle where
  /-- Whether selectors are shown in place of paths. -/
  selectors : Bool := false
  colored : Bool := false
deriving DecidableEq, Repr, Inhabited

namespace ListingStyle

def palette (style : ListingStyle) : Palette :=
  if style.colored then .colored else .plain

def pathText (style : ListingStyle) (attr : String) (spot : Spot) : String :=
  if style.selectors then spot.selector attr else spot.path

def indent (level : Nat) : String :=
  String.ofList (List.replicate (2 * level) ' ')

def filterLine (style : ListingStyle) (level : Nat) (filter : RowFilter) : String :=
  let p := style.palette
  indent level ++ p.filter ++ filterKey ++ "(" ++ filter.itemKey ++ ")" ++ p.reset ++ " " ++ p.sign ++
    "=" ++ p.reset ++ " " ++ ", ".intercalate filter.columns.keys ++ "\n"

def keyLine (style : ListingStyle) (level : Nat) (key path : String) : String :=
  let p := style.palette
  indent level ++ p.key ++ key ++ p.reset ++ " " ++ p.sign ++ "=" ++ p.reset ++ " " ++ p.path ++
    path ++ p.reset ++ "\n"

end ListingStyle

namespace Layout

/-- How many levels of branches stand inside each other. -/
def height : Layout → Nat
  | plain => 0
  | filtered _ _ => 0
  | leaf _ rest => rest.height
  | branch _ child rest => max (child.height + 1) rest.height

end Layout

namespace Nav

/-- The lines of the children under `keys`. `below` lists what lies under a child. -/
def listChildren (style : ListingStyle) (level : Nat) (below : Place → Nav String) (place : Place) :
    List String → Nav String
  | [] => return ""
  | key :: keys => do
    let lines ←
      match ← child place key with
      | none => pure ""
      | some found =>
        let path := style.pathText (← get).settings.testAttribute found.toSpot
        pure (style.keyLine level key path ++ (← below found))
    return lines ++ (← listChildren style level below place keys)

/-- The listing of what lies under a place, `height` levels deep. -/
def listBelow (style : ListingStyle) (level : Nat) (place : Place) (height : Nat) : Nav String := do
  let filter := place.rowFilter?.elim "" (style.filterLine level)
  let below (found : Place) : Nav String :=
    match height with
    | 0 => return ""
    | height + 1 => listBelow style (level + 1) found height
  return filter ++ (← listChildren style level below place place.keys)

/-- The listing of the whole tree. All places in it are visited. -/
def listing (style : ListingStyle) : Nav String := do
  let n ← get
  listBelow style 0 n.root n.layout.height

end Nav

end PageNav
