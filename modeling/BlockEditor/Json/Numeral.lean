import BlockEditor.Json.Basic

/-!
# Values of numerals

A numeral without fraction and exponent is an integer when it fits 64 bits, with `-0` apart,
which is the double. Every other numeral is read in doubles: the leading digits that fit 64
unsigned bits make a significand, which is scaled by one power of ten. Two roundings at most
take part, so a numeral of up to fifteen digits with a small exponent is read exactly.
-/

namespace BlockEditor.Json.Numeral

/-- The parts of a numeral as written. Digits are values from 0 to 9. -/
structure Parts where
  negative : Bool
  whole : List Nat
  fraction : Option (List Nat)
  exponent : Option Int
deriving DecidableEq, Repr

/-- Append digits to a significand as long as it fits 64 bits; also how many were left over. -/
def gather (significand : Nat) : List Nat → Nat × Nat
  | [] => (significand, 0)
  | d :: rest =>
    let next := significand * 10 + d
    if next < UInt64.size then gather next rest else (significand, rest.length + 1)

/-- `x` times ten to the `exponent`, in steps of at most `10 ^ 308`. A value out of range has no
double; one too small for doubles is zero. -/
def scale : Nat → Float → Int → Option Float
  | 0, _, _ => some 0.0
  | steps + 1, x, exponent =>
    if exponent.natAbs ≤ 308 then
      let power := Float.ofScientific 1 false exponent.natAbs
      if 0 ≤ exponent then
        let scaled := x * power
        if scaled.isFinite then some scaled else none
      else
        some (x / power)
    else if x == 0.0 then
      some x
    else if 0 ≤ exponent then
      none
    else
      scale steps (x / Float.ofScientific 1 false 308) (exponent + 308)

def toFloat? (p : Parts) : Option Float :=
  let (leading, leftOver) := gather 0 p.whole
  let fraction := p.fraction.getD []
  let (significand, unused) := gather leading fraction
  let exponent := (leftOver : Int) - (fraction.length - unused : Nat) + p.exponent.getD 0
  let size := scale 4 (UInt64.ofNat significand).toFloat exponent
  size.map fun x => if p.negative then -x else x

def value? (p : Parts) : Option Number :=
  let (magnitude, leftOver) := gather 0 p.whole
  match p.fraction, p.exponent, leftOver with
  | none, none, 0 =>
    if !p.negative then some (.int magnitude)
    else if 0 < magnitude ∧ magnitude ≤ UInt64.size / 2 then some (.int (-magnitude))
    else (toFloat? p).map .float
  | _, _, _ => (toFloat? p).map .float

end BlockEditor.Json.Numeral
