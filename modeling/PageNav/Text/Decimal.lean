/-!
# Shortest decimals

The decimal with the fewest digits among those that round to a given binary fraction, and of these
the one nearest to it. All arithmetic is exact.
-/

namespace PageNav.Text

/-- The number `digits * 10 ^ exponent`. -/
structure Decimal where
  digits : Nat
  exponent : Int
deriving DecidableEq, Repr

/-- How many decimal digits a positive number has. -/
def digitCount (n : Nat) : Nat :=
  (Nat.toDigits 10 n).length

namespace Decimal

/-- Moves zeros at the end of the digits into the exponent. At most `steps` zeros are moved. -/
def trimmed (d : Decimal) : Nat → Decimal
  | 0 => d
  | steps + 1 =>
    if d.digits ≠ 0 && d.digits % 10 = 0 then trimmed ⟨d.digits / 10, d.exponent + 1⟩ steps else d

/-- The power of ten of the first digit. -/
def lead (d : Decimal) : Int :=
  d.exponent + digitCount d.digits - 1

end Decimal

/-- The fraction `num / den`, and the distance within which other numbers still round to it. -/
structure Rounding where
  num : Nat
  den : Nat
  /-- Numbers from `low / den` to `high / den` round to the fraction. -/
  low : Nat
  high : Nat
  /-- Whether the two ends round to it as well. -/
  closed : Bool

namespace Rounding

/-- The power of ten of the first digit of the fraction. -/
def lead (r : Rounding) : Int :=
  if r.den ≤ r.num then (digitCount (r.num / r.den) : Int) - 1
  else -(digitCount ((r.den + r.num - 1) / r.num - 1) : Int)

/-- Whether `d` rounds to the fraction. -/
def admits (r : Rounding) (d : Decimal) : Bool :=
  let value := d.digits * Nat.pow 10 d.exponent.toNat * r.den
  let unit := Nat.pow 10 (-d.exponent).toNat
  if r.closed then r.low * unit ≤ value && value ≤ r.high * unit
  else r.low * unit < value && value < r.high * unit

/-- The fraction in units of `10 ^ exponent`: the whole part, the remainder and its divisor. -/
def onGrid (r : Rounding) (exponent : Int) : Nat × Nat × Nat :=
  let scaled := r.num * Nat.pow 10 (-exponent).toNat
  let unit := r.den * Nat.pow 10 exponent.toNat
  (scaled / unit, scaled % unit, unit)

/-- The best decimal with as many digits as the grid allows, if one rounds to the fraction. -/
def nearest? (r : Rounding) (exponent : Int) : Option Decimal :=
  let (whole, rest, unit) := r.onGrid exponent
  let below : Decimal := ⟨whole, exponent⟩
  let above : Decimal := ⟨whole + 1, exponent⟩
  let belowFirst := 2 * rest < unit || (2 * rest = unit && whole % 2 = 0)
  (if belowFirst then [below, above] else [above, below]).find? r.admits

/-- Tries grids of more and more digits, `tries` at most. -/
def search (r : Rounding) (exponent : Int) : Nat → Decimal
  | 0 => ⟨(r.onGrid exponent).1, exponent⟩
  | tries + 1 => (r.nearest? exponent).getD (search r (exponent - 1) tries)

/-- The shortest decimal that rounds to the fraction. Seventeen digits always suffice. -/
def shortest (r : Rounding) : Decimal :=
  (r.search r.lead 17).trimmed 400

end Rounding

/-- The size of a finite number other than zero, as a fraction with its rounding range. Four units
of `num` are one unit in the last place, so that half a unit and a quarter are whole. -/
def roundingOf (x : Float) : Rounding :=
  let bits := x.toBits.toNat
  let fraction := bits % Nat.pow 2 52
  let power := bits / Nat.pow 2 52 % Nat.pow 2 11
  let mantissa : Nat := if power = 0 then fraction else fraction + Nat.pow 2 52
  let scale : Int := (max 1 power : Nat) - 1077
  let up := Nat.pow 2 scale.toNat
  let below : Nat := if fraction = 0 && 1 < power then 1 else 2
  { num := 4 * mantissa * up
    den := Nat.pow 2 (-scale).toNat
    low := (4 * mantissa - below) * up
    high := (4 * mantissa + 2) * up
    closed := mantissa % 2 = 0 }

/-- A decimal with a point in it, as `12.5`, `0.004` or `300.0`. -/
def pointText (digits : List Char) (lead : Int) : List Char :=
  let zeros (n : Int) := List.replicate n.toNat '0'
  if lead < 0 then ['0', '.'] ++ zeros (-lead - 1) ++ digits
  else
    let whole := digits.take (lead + 1).toNat
    let rest := digits.drop (lead + 1).toNat
    whole ++ zeros (lead + 1 - digits.length) ++ '.' :: (if rest.isEmpty then ['0'] else rest)

/-- A decimal with the point after its first digit and a power of ten, as `1.5e+20`. -/
def powerText (digits : List Char) (lead : Int) : List Char :=
  let rest := digits.drop 1
  let sign := if lead < 0 then '-' else '+'
  digits.take 1 ++ (if rest.isEmpty then [] else '.' :: rest) ++ 'e' :: sign ::
    Nat.toDigits 10 lead.natAbs

/-- The powers of ten of the first digit for which the point is put in its place. -/
def pointRange : Int × Int := (-5, 15)

/-- The text of a finite number: its shortest decimal, always with a point or a power. -/
def realText (x : Float) : String :=
  let size :=
    if x == 0 then ['0', '.', '0']
    else
      let d := (roundingOf x).shortest
      let digits := Nat.toDigits 10 d.digits
      if pointRange.1 ≤ d.lead && d.lead ≤ pointRange.2 then pointText digits d.lead
      else powerText digits d.lead
  let negative := x.toBits ≥ 0x8000000000000000
  String.ofList (if negative then '-' :: size else size)

end PageNav.Text
