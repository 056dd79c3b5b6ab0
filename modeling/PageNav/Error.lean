import PageNav.Json.Fault

/-!
# Errors

One type for all that can go wrong, a constructor for each cause, and the words for each in one
place.
-/

namespace PageNav

/-- A setting that may not be blank. -/
inductive SettingName where
  | attribute
  | scopingOperation
deriving DecidableEq, Repr

def SettingName.text : SettingName → String
  | .attribute => "attribute"
  | .scopingOperation => "scoping_operation"

inductive Error where
  /-- The text of a schema is not JSON. -/
  | schemaText (fault : Json.Fault)
  /-- A value in a schema is of the wrong kind. The path holds the keys from the root to it. -/
  | schemaShape (path : List String) (found : Json.Kind)
  /-- The text of settings is not JSON, or not of the right form. -/
  | settingsText (fault : Json.Fault)
  | blankSetting (name : SettingName)
  | unknownOperation (name path : String)
  /-- The host has the operation, but the name means something else at this place, or the place is
  the root. -/
  | shadowedOperation (name path : String)
  /-- The operation scopes to a place and cannot be called like others. -/
  | scopingOperation (name : String)
  | host (message : String)

def Json.Kind.text : Json.Kind → String
  | .null => "null"
  | .bool => "a boolean"
  | .number => "a number"
  | .string => "a string"
  | .array => "an array"
  | .object => "an object"

def Json.Fault.message : Json.Fault → String
  | .ended => "the text ends too early"
  | .malformed => "the text is not JSON"
  | .mismatch reason => reason.message

/-- The keys from the root of a schema to a value, with the root as a dollar sign. -/
def schemaPathText (path : List String) : String :=
  ".".intercalate ("$" :: path)

def Error.message : Error → String
  | .schemaText fault => s!"invalid schema JSON: {fault.message}"
  | .schemaShape path found =>
    let wanted := if path.isEmpty then "an object" else "an object or null"
    s!"expected {wanted} at `{schemaPathText path}`, found {found.text}"
  | .settingsText fault => s!"invalid config: {fault.message}"
  | .blankSetting name => s!"invalid config: `{name.text}` must not be empty"
  | .unknownOperation name path => s!"`{name}` is not a host operation (at `{path}`)"
  | .shadowedOperation name path => s!"`{name}` does not dispatch to the host at `{path}`"
  | .scopingOperation name => s!"`{name}` takes a callback, use `within`"
  | .host message => s!"host error: {message}"

end PageNav
