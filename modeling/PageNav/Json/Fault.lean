import PageNav.Json.Basic
import PageNav.Text.Literal

/-!
# Why a text is not read

A text may stop too early, break the rules of JSON, or hold a value of another form than the reader
wants. The first of these in the text is the one that counts.
-/

namespace PageNav.Json

inductive Wanted where
  | string
  | map
  | boolean
  /-- A whole number of at most 64 bits, without a sign. -/
  | natural
  | record (name : String)
deriving DecidableEq, Repr

def Wanted.text : Wanted → String
  | .string => "a string"
  | .map => "a map"
  | .boolean => "a boolean"
  | .natural => "u64"
  | .record name => "struct " ++ name

/-- What a reader found instead. Of an array or an object only the opening bracket is read. -/
inductive Found where
  | null
  | boolean (value : Bool)
  | number (value : Number)
  | string (value : String)
  | sequence
  | map

def Found.text : Found → String
  | .null => "null"
  | .boolean value => s!"boolean `{value}`"
  | .number (.whole n) => s!"integer `{n}`"
  | .number (.real x) => s!"floating point `{Text.realText x}`"
  | .string value => "string " ++ Text.literal value
  | .sequence => "sequence"
  | .map => "map"

/-- A value that is JSON and still not what the reader wants. -/
inductive Mismatch where
  | wrongType (found : Found) (wanted : Wanted)
  /-- A whole number that is too small. -/
  | wrongValue (found : Int) (wanted : Wanted)
  | repeatedField (name : String)
  | unknownField (name : String) (known : List String)
  /-- A record written as an array with too few items. -/
  | wrongLength (found : Nat) (record : String) (fields : Nat)

/-- The names of several fields, as a choice. -/
def choice (names : List String) : String :=
  "one of " ++ ", ".intercalate (names.map fun name => s!"`{name}`")

def Mismatch.message : Mismatch → String
  | .wrongType found wanted => s!"invalid type: {found.text}, expected {wanted.text}"
  | .wrongValue found wanted => s!"invalid value: integer `{found}`, expected {wanted.text}"
  | .repeatedField name => s!"duplicate field `{name}`"
  | .unknownField name known => s!"unknown field `{name}`, expected {choice known}"
  | .wrongLength found record fields =>
    s!"invalid length {found}, expected struct {record} with {fields} elements"

inductive Fault where
  /-- The text stops too early. -/
  | ended
  /-- The text is not JSON, whatever may follow. -/
  | malformed
  | mismatch (reason : Mismatch)

end PageNav.Json
