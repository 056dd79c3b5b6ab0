import PageNav.Page.RowTable
import PageNav.Path.Selector
import PageNav.Text.Blank
import PageNav.Error

/-!
# Settings

What a user may choose for a page. Every setting has a default, so a text of settings holds only
those that differ.
-/

namespace PageNav

structure Settings where
  /-- The attribute that selectors test. -/
  testAttribute : String := Selector.defaultAttribute
  /-- How containers and their items are named. -/
  rowTable : RowTable := .standard
  /-- The operation of the host that scopes to a place. -/
  scopingOperation : String := "within"
deriving DecidableEq, Repr, Inhabited

namespace Settings

/-- Whether two settings are the same, when the order of the row table does not count. -/
def same (s t : Settings) : Bool :=
  s.testAttribute == t.testAttribute && s.rowTable.same t.rowTable &&
    s.scopingOperation == t.scopingOperation

/-- Refuses names that could not work: blank ones. -/
def check (s : Settings) : Except Error Unit :=
  if Text.allBlank s.testAttribute then throw (.blankSetting .attribute)
  else if Text.allBlank s.scopingOperation then throw (.blankSetting .scopingOperation)
  else return ()

/-! ## JSON -/

def recordName : String := "Config"

def fieldNames : List String := ["attribute", "containers", "scoping_operation"]

def toJson (s : Settings) : Json :=
  .object (.ofList [("attribute", .string s.testAttribute), ("containers", s.rowTable.toJson),
    ("scoping_operation", .string s.scopingOperation)])

/-- The fields that a text has given so far. -/
structure Draft where
  testAttribute : Option String := none
  rowTable : Option RowTable := none
  scopingOperation : Option String := none

namespace Draft

/-- The settings, with defaults for what is not given. -/
def settings (d : Draft) : Settings :=
  let standard : Settings := {}
  { testAttribute := d.testAttribute.getD standard.testAttribute
    rowTable := d.rowTable.getD standard.rowTable
    scopingOperation := d.scopingOperation.getD standard.scopingOperation }

end Draft

/-- Refuses a field that is given for the second time. -/
def once {α : Type} (name : String) (given : Option α) : Json.Reader Unit :=
  if given.isSome then throw (.mismatch (.repeatedField name)) else return ()

/-- Takes the value of a field, after its name. -/
def readField (d : Draft) (name : String) : Json.Reader Draft := do
  if name = "attribute" then
    once name d.testAttribute
    .colon
    return { d with testAttribute := some (← .string) }
  else if name = "containers" then
    once name d.rowTable
    .colon
    return { d with rowTable := some (← RowTable.reader) }
  else if name = "scoping_operation" then
    once name d.scopingOperation
    .colon
    return { d with scopingOperation := some (← .string) }
  else throw (.mismatch (.unknownField name fieldNames))

/-- Takes the fields in order, without their names. Those at the end may be missing. -/
def readInOrder : Json.Reader Draft := do
  let testAttribute ← .nextField true .string
  let rowTable ← .nextField testAttribute.isNone RowTable.reader
  let scopingOperation ← .nextField testAttribute.isNone .string
  .endFields
  return { testAttribute, rowTable, scopingOperation }

def reader : Json.Reader Settings := do
  match ← .peek with
  | none => throw .ended
  | some c =>
    if c = '{' then
      .skip
      return (← .members .kept readField {}).settings
    else if c = '[' then
      .skip
      return (← readInOrder).settings
    else .refuse (.record recordName)

/-- Reads settings and checks them. -/
def ofText (text : String) : Except Error Settings :=
  match reader.run text with
  | .error fault => throw (.settingsText fault)
  | .ok settings => do
    settings.check
    return settings

end Settings

end PageNav
