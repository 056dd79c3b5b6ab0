import PageNav.Json.Reader

/-!
# Reading values of a known form

A value of another form is refused as soon as its form is known. Before that a string, a number or a
word is read to its end, so that its own faults come first.
-/

namespace PageNav.Json.Reader

variable {α : Type}

/-- Refuses the next value, which is not of the form wanted. -/
def refuse (wanted : Wanted) : Reader α := do
  let found : Found ←
    match ← peek with
    | none => throw .ended
    | some c =>
      if c = '[' then pure .sequence
      else if c = '{' then pure .map
      else
        match ← value .kept 0 with
        | .null => pure .null
        | .bool b => pure (.boolean b)
        | .number n => pure (.number n)
        | .string s => pure (.string s)
        | _ => throw .malformed
  throw (.mismatch (.wrongType found wanted))

def string : Reader String := do
  if (← peek) = some '"' then quoted .kept else refuse .string

def boolean : Reader Bool := do
  match ← peek with
  | some 't' =>
    word ['t', 'r', 'u', 'e']
    return true
  | some 'f' =>
    word ['f', 'a', 'l', 's', 'e']
    return false
  | _ => refuse .boolean

/-- Takes a whole number without a sign. -/
def natural : Reader Nat := do
  match ← peek with
  | none => throw .ended
  | some c =>
    if c = '-' || c.isDigit then
      match ← number .kept with
      | .whole n =>
        if 0 ≤ n then return n.toNat else throw (.mismatch (.wrongValue n .natural))
      | n => throw (.mismatch (.wrongType (.number n) .natural))
    else refuse .natural

def optional (reader : Reader α) : Reader (Option α) := do
  if (← peek) = some 'n' then
    word ['n', 'u', 'l', 'l']
    return none
  else return some (← reader)

/-- Takes the members of an object, or refuses the value. -/
def map {σ : Type} (entry : σ → String → Reader σ) (s : σ) : Reader σ := do
  if (← peek) = some '{' then
    skip
    members .kept entry s
  else refuse .map

/-- Takes the next field of a record that is written as an array, if there is one. `isFirst` says
that no field has been taken yet. -/
def nextField (isFirst : Bool) (reader : Reader α) : Reader (Option α) := do
  match ← peek with
  | none => throw .ended
  | some c =>
    if c = ']' then return none
    else if isFirst then return some (← reader)
    else if c = ',' then
      skip
      match ← peek with
      | none => throw .ended
      | some c => if c = ']' then throw .malformed else return some (← reader)
    else throw .malformed

/-- Takes the closing bracket of a record that is written as an array. -/
def endFields : Reader Unit := do
  match ← peek with
  | none => throw .ended
  | some c => if c = ']' then skip else throw .malformed

end PageNav.Json.Reader
