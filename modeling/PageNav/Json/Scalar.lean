import PageNav.Json.Fault

/-!
# Reading strings and numbers

Each reader takes the characters that are left and gives its result with the characters after it.
Nothing is skipped in front.
-/

namespace PageNav.Json

/-- What becomes of a value. One that is kept must name characters that exist and numbers that are
not too large. One that is skipped need not. -/
inductive Care where
  | kept
  | skipped
deriving DecidableEq, Repr

namespace Scalar

/-! ## Strings -/

def hexDigit? (c : Char) : Option Nat :=
  if '0' ≤ c && c ≤ '9' then some (c.toNat - '0'.toNat)
  else if 'a' ≤ c && c ≤ 'f' then some (c.toNat - 'a'.toNat + 10)
  else if 'A' ≤ c && c ≤ 'F' then some (c.toNat - 'A'.toNat + 10)
  else none

/-- Reads four hexadecimal digits. The text has ended when less than four bytes are left. -/
def fourDigits (cs : List Char) : Except Fault (Nat × List Char) :=
  let digits := cs.take 4
  if (String.ofList digits).utf8ByteSize < 4 then .error .ended
  else
    match digits.foldlM (fun n c => (hexDigit? c).map (16 * n + ·)) 0 with
    | none => .error .malformed
    | some n => .ok (n, cs.drop 4)

/-- Whether the number is the first half of a character beyond the first 65536. -/
def isFirstHalf (n : Nat) : Bool :=
  0xD800 ≤ n && n < 0xDC00

def isSecondHalf (n : Nat) : Bool :=
  0xDC00 ≤ n && n < 0xE000

/-- Reads the second half of a character after its first half. -/
def secondHalf (first : Nat) : List Char → Except Fault (Char × List Char)
  | [] => .error .ended
  | ['\\'] => .error .ended
  | '\\' :: 'u' :: cs => do
    let (second, rest) ← fourDigits cs
    if isSecondHalf second then
      return (Char.ofNat (0x10000 + (first - 0xD800) * 0x400 + (second - 0xDC00)), rest)
    else throw .malformed
  | _ => .error .malformed

/-- Reads an escape that gives a character by its number. -/
def numberedChar (care : Care) (cs : List Char) : Except Fault (Char × List Char) := do
  let (n, rest) ← fourDigits cs
  match care with
  | .skipped => return (Char.ofNat n, rest)
  | .kept =>
    if isFirstHalf n then secondHalf n rest
    else if isSecondHalf n then throw .malformed
    else return (Char.ofNat n, rest)

def escapedChar? (c : Char) : Option Char :=
  if c = '"' || c = '\\' || c = '/' then some c
  else if c = 'b' then some '\x08'
  else if c = 'f' then some '\x0c'
  else if c = 'n' then some '\n'
  else if c = 'r' then some '\r'
  else if c = 't' then some '\t'
  else none

def escaped (care : Care) : List Char → Except Fault (Char × List Char)
  | [] => .error .ended
  | c :: cs =>
    if c = 'u' then numberedChar care cs
    else
      match escapedChar? c with
      | some meant => .ok (meant, cs)
      | none => .error .malformed

theorem length_of_fourDigits {cs rest : List Char} {n : Nat} (h : fourDigits cs = .ok (n, rest)) :
    rest.length ≤ cs.length := by
  simp only [fourDigits] at h
  split at h
  · simp at h
  · split at h
    · simp at h
    · obtain ⟨-, rfl⟩ := by simpa using h
      simp

theorem length_of_secondHalf {cs rest : List Char} {first : Nat} {c : Char}
    (h : secondHalf first cs = .ok (c, rest)) : rest.length ≤ cs.length := by
  unfold secondHalf at h
  split at h
  · simp at h
  · simp at h
  · next cs =>
    simp only [bind, Except.bind] at h
    split at h
    · simp at h
    · next heq =>
      have := length_of_fourDigits heq
      split at h
      · obtain ⟨-, rfl⟩ := by simpa [pure, Except.pure] using h
        simp only [List.length_cons]; omega
      · simp [throw, throwThe, MonadExceptOf.throw] at h
  · simp at h

theorem length_of_numberedChar {care : Care} {cs rest : List Char} {c : Char}
    (h : numberedChar care cs = .ok (c, rest)) : rest.length ≤ cs.length := by
  simp only [numberedChar, bind, Except.bind] at h
  split at h
  · simp at h
  · next heq =>
    have := length_of_fourDigits heq
    split at h
    · obtain ⟨-, rfl⟩ := by simpa [pure, Except.pure] using h
      exact this
    · split at h
      · exact Nat.le_trans (length_of_secondHalf h) this
      · split at h
        · simp [throw, throwThe, MonadExceptOf.throw] at h
        · obtain ⟨-, rfl⟩ := by simpa [pure, Except.pure] using h
          exact this

theorem length_of_escaped {care : Care} {cs rest : List Char} {c : Char}
    (h : escaped care cs = .ok (c, rest)) : rest.length < cs.length := by
  unfold escaped at h
  split at h
  · simp at h
  · split at h
    · have := length_of_numberedChar h
      simp only [List.length_cons]; omega
    · split at h
      · obtain ⟨-, rfl⟩ := by simpa using h
        simp
      · simp at h

/-- Reads the text of a string and its closing quote, after the opening one. -/
def stringBody (care : Care) : List Char → Except Fault (List Char × List Char)
  | [] => .error .ended
  | c :: cs =>
    if c = '"' then .ok ([], cs)
    else if c = '\\' then
      match _h : escaped care cs with
      | .error fault => .error fault
      | .ok (meant, rest) =>
        (stringBody care rest).map fun (text, rest) => (meant :: text, rest)
    else if c.toNat < 0x20 then .error .malformed
    else (stringBody care cs).map fun (text, rest) => (c :: text, rest)
termination_by cs => cs.length
decreasing_by
  · have := length_of_escaped _h
    simp only [List.length_cons]; omega
  · simp

/-! ## Numbers -/

structure Numeral where
  negative : Bool
  whole : List Char
  /-- The digits after the point, none if there is no point. -/
  fraction : List Char
  /-- The power of ten, if one is written. -/
  power : Option Int

/-- The fault of a number that breaks off with `rest` left over. A number that is skipped counts as
malformed even where the text ends. -/
def brokenNumber (care : Care) (rest : List Char) : Fault :=
  if rest.isEmpty && care = .kept then .ended else .malformed

def someDigits (care : Care) (cs : List Char) : Except Fault (List Char × List Char) :=
  let digits := cs.takeWhile Char.isDigit
  let rest := cs.dropWhile Char.isDigit
  if digits.isEmpty then .error (brokenNumber care rest) else .ok (digits, rest)

/-- Reads the digits before the point. A zero in front stands alone. -/
def wholeDigits (care : Care) (cs : List Char) : Except Fault (List Char × List Char) := do
  let (digits, rest) ← someDigits care cs
  if digits.head? = some '0' && 1 < digits.length then throw .malformed else return (digits, rest)

def fractionDigits (care : Care) : List Char → Except Fault (List Char × List Char)
  | '.' :: cs => someDigits care cs
  | cs => .ok ([], cs)

def digitsValue (digits : List Char) : Nat :=
  digits.foldl (fun n c => 10 * n + (c.toNat - '0'.toNat)) 0

def powerDigits (care : Care) : List Char → Except Fault (Option Int × List Char)
  | [] => .ok (none, [])
  | c :: cs =>
    if c = 'e' || c = 'E' then do
      let (negative, cs) :=
        match cs with
        | '+' :: cs => (false, cs)
        | '-' :: cs => (true, cs)
        | cs => (false, cs)
      let (digits, rest) ← someDigits care cs
      let size : Int := digitsValue digits
      return (some (if negative then -size else size), rest)
    else .ok (none, c :: cs)

def numeral (care : Care) (cs : List Char) : Except Fault (Numeral × List Char) := do
  let (negative, cs) :=
    match cs with
    | '-' :: cs => (true, cs)
    | cs => (false, cs)
  let (whole, cs) ← wholeDigits care cs
  let (fraction, cs) ← fractionDigits care cs
  let (power, cs) ← powerDigits care cs
  return ({ negative, whole, fraction, power }, cs)

/-- Appends digits to a number as long as it fits in 64 bits. Gives the digits left over. -/
def appendDigits (n : Nat) : List Char → Nat × List Char
  | [] => (n, [])
  | c :: cs =>
    let m := 10 * n + (c.toNat - '0'.toNat)
    if m < UInt64.size then appendDigits m cs else (n, c :: cs)

def tenTo (e : Nat) : Float :=
  Float.ofScientific 1 false e

/-- `x * 10 ^ e`, or nothing if that is too large. Powers above 308 are too large for all but 0. -/
def scaleUp? (x : Float) (e : Nat) : Option Float :=
  if e ≤ 308 then
    let y := x * tenTo e
    if y.isInf then none else some y
  else if x == 0 then some x
  else none

/-- `x / 10 ^ e`, in steps of at most 308 powers. -/
def scaleDown (x : Float) (e : Nat) : Float :=
  if e ≤ 308 then x / tenTo e
  else if x == 0 then x
  else scaleDown (x / tenTo 308) (e - 308)
termination_by e
decreasing_by omega

namespace Numeral

/-- The number as a binary fraction, from its first digits and a power of ten. Digits before the
point that do not fit count as powers, those after it are dropped. -/
def real? (n : Numeral) : Option Float :=
  let (whole, wholeRest) := appendDigits 0 n.whole
  let (all, fractionRest) := appendDigits whole n.fraction
  let exponent : Int :=
    n.power.getD 0 + wholeRest.length - (n.fraction.length - fractionRest.length : Nat)
  let x := all.toUInt64.toFloat
  let size? := if 0 ≤ exponent then scaleUp? x exponent.toNat else some (scaleDown x exponent.natAbs)
  size?.map fun size => if n.negative then -size else size

/-- The whole number, if no fraction and no power is written and it fits in 64 bits. Zero has no
sign. -/
def whole? (n : Numeral) : Option Int :=
  if n.fraction.isEmpty && n.power.isNone then
    let size := digitsValue n.whole
    if n.negative then if 0 < size && 2 * size ≤ UInt64.size then some (-size) else none
    else if size < UInt64.size then some size else none
  else none

/-- The number that is meant, or nothing if it is too large. -/
def number? (n : Numeral) : Option Number :=
  match n.whole? with
  | some value => some (.whole value)
  | none => n.real?.map .real

end Numeral

def number (cs : List Char) : Except Fault (Number × List Char) := do
  let (n, rest) ← numeral .kept cs
  match n.number? with
  | some value => return (value, rest)
  | none => throw .malformed

end Scalar

end PageNav.Json
