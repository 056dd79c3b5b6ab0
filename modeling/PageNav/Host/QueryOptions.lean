import PageNav.Json.Typed

/-!
# Query options

Options that go along with a query. The host gets them as they are.
-/

namespace PageNav

structure QueryOptions where
  /-- Whether the host logs the command. -/
  log : Option Bool := none
  /-- How long the host tries, in milliseconds. -/
  timeout : Option UInt64 := none
deriving DecidableEq, Repr, Inhabited

namespace QueryOptions

/-- Options that keep the host from logging. -/
def quiet : QueryOptions := { log := some false }

def withTimeout (options : QueryOptions) (milliseconds : UInt64) : QueryOptions :=
  { options with timeout := some milliseconds }

/-! ## JSON -/

/-- An option that is not given is left out. -/
def toJson (options : QueryOptions) : Json :=
  let log := options.log.map fun b => ("log", Json.bool b)
  let timeout := options.timeout.map fun n => ("timeoutMs", Json.number (.whole n.toNat))
  .object (.ofList (log.toList ++ timeout.toList))

def recordName : String := "QueryOptions"

/-- The options that a text has given so far. `null` counts as given. -/
structure Draft where
  log : Option (Option Bool) := none
  timeout : Option (Option UInt64) := none

def Draft.options (d : Draft) : QueryOptions :=
  { log := d.log.join, timeout := d.timeout.join }

def readTime : Json.Reader UInt64 := do
  return (← .natural).toUInt64

/-- Takes the value of a field, after its name. A field of another name is skipped. -/
def readField (d : Draft) (name : String) : Json.Reader Draft := do
  if name = "log" then
    if d.log.isSome then throw (.mismatch (.repeatedField name))
    .colon
    return { d with log := some (← .optional .boolean) }
  else if name = "timeoutMs" then
    if d.timeout.isSome then throw (.mismatch (.repeatedField name))
    .colon
    return { d with timeout := some (← .optional readTime) }
  else
    .colon
    .skipValue
    return d

/-- The fault of an array that ends after `found` fields. -/
def tooShort (found : Nat) : Json.Fault :=
  .mismatch (.wrongLength found recordName 2)

/-- Takes both fields in order, without their names. -/
def readInOrder : Json.Reader QueryOptions := do
  let some log ← .nextField true (.optional .boolean) | throw (tooShort 0)
  let some timeout ← .nextField false (.optional readTime) | throw (tooShort 1)
  .endFields
  return { log, timeout }

def reader : Json.Reader QueryOptions := do
  match ← .peek with
  | none => throw .ended
  | some c =>
    if c = '{' then
      .skip
      return (← .members .kept readField {}).options
    else if c = '[' then
      .skip
      readInOrder
    else .refuse (.record recordName)

def ofText (text : String) : Except Json.Fault QueryOptions :=
  reader.run text

end QueryOptions

end PageNav
