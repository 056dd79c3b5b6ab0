import PageNav.Json.Scalar

/-!
# Reading JSON

A reader takes what it wants from the front of a text and leaves the rest. Blanks in front of a
value or a sign are skipped.
-/

namespace PageNav.Json

/-- Takes a value from the front of a text, or says why it cannot. -/
abbrev Reader := StateT (List Char) (Except Fault)

namespace Reader

/-- The blanks of JSON, fewer than those of a path. -/
def isSpace (c : Char) : Bool :=
  c = ' ' || c = '\n' || c = '\t' || c = '\r'

/-- Skips blanks and looks at the next character without taking it. -/
def peek : Reader (Option Char) := fun cs =>
  let cs := cs.dropWhile isSpace
  .ok (cs.head?, cs)

def skip : Reader Unit := fun cs => .ok ((), cs.tail)

def word : List Char → Reader Unit
  | [] => pure ()
  | c :: cs => fun
    | [] => .error .ended
    | d :: ds => if c = d then word cs ds else .error .malformed

def colon : Reader Unit := do
  match ← peek with
  | none => throw .ended
  | some c => if c = ':' then skip else throw .malformed

/-- Takes a string that starts right here. -/
def quoted (care : Care) : Reader String := do
  skip
  return String.ofList (← Scalar.stringBody care)

def key (care : Care) : Reader String := do
  match ← peek with
  | none => throw .ended
  | some c => if c = '"' then quoted care else throw .malformed

section

variable {σ : Type}

/-- Takes entries with commas between them up to the bracket `close`, at most `rounds` of them. -/
def moreEntries (close : Char) (entry : σ → Reader σ) : Nat → σ → Reader σ
  | 0, _ => throw .ended
  | rounds + 1, s => do
    let s ← entry s
    match ← peek with
    | none => throw .ended
    | some c =>
      if c = close then
        skip
        return s
      else if c = ',' then
        skip
        moreEntries close entry rounds s
      else throw .malformed

/-- Takes the entries of an array or an object and its closing bracket, after the opening one. There
are no more entries than characters, since each takes one at least. -/
def entries (close : Char) (entry : σ → Reader σ) (s : σ) : Reader σ := do
  match ← peek with
  | none => throw .ended
  | some c =>
    if c = close then
      skip
      return s
    else
      let text ← get
      moreEntries close entry text.length s

/-- Takes the members of an object. `entry` gets each key and takes what follows it, from the
colon on. -/
def members (care : Care) (entry : σ → String → Reader σ) : σ → Reader σ :=
  entries '}' fun s => do entry s (← key care)

end

def number (care : Care) : Reader Number := do
  match care with
  | .kept => Scalar.number
  | .skipped =>
    let _ ← Scalar.numeral .skipped
    return .whole 0

/-- Takes a value. Arrays and objects may stand inside each other `depth` deep. -/
def value (care : Care) (depth : Nat) : Reader Json := do
  match ← peek with
  | none => throw .ended
  | some c =>
    if c = 'n' then
      word ['n', 'u', 'l', 'l']
      return .null
    else if c = 't' then
      word ['t', 'r', 'u', 'e']
      return .bool true
    else if c = 'f' then
      word ['f', 'a', 'l', 's', 'e']
      return .bool false
    else if c = '-' || c.isDigit then return .number (← number care)
    else if c = '"' then return .string (← quoted care)
    else
      match depth with
      | 0 => throw .malformed
      | depth + 1 =>
        if c = '[' then
          skip
          let items ← entries ']' (fun items => return (← value care depth) :: items) []
          return .array (.ofList items.reverse)
        else if c = '{' then
          skip
          let entry (found : Members) (key : String) : Reader Members := do
            colon
            return found.insert key (← value care depth)
          return .object (← members care entry .nil)
        else throw .malformed

/-- How deep arrays and objects may stand inside each other in a value that is kept. -/
def maxDepth : Nat := 127

/-- Takes a value of any depth that is of no use. -/
def skipValue : Reader Unit := do
  let text ← get
  let _ ← value .skipped text.length

/-- Reads a whole text, of which nothing but blanks may be left over. -/
def run {α : Type} (reader : Reader α) (text : String) : Except Fault α := do
  let (result, rest) ← reader text.toList
  if rest.all isSpace then return result else throw .malformed

end Reader

def ofText (text : String) : Except Fault Json :=
  (Reader.value .kept Reader.maxDepth).run text

end PageNav.Json
