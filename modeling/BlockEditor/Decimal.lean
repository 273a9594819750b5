/-!
# The shortest decimal of a double

A double stands for every real number that rounds to it. Its shortest decimal is the one with the
fewest digits in that interval, of several the one nearest to the double; which of two equally
near ones is taken is for the format to say. In messages a double is written out in full, without
an exponent; a whole number has no point.

A finite double is `m * 2 ^ q`. The ends of its interval lie half a step away; below a power of
two the lower half step is half as long. The ends belong to the interval when `m` is even. All
comparisons are made in natural numbers, in quarters of the step `2 ^ q`.
-/

namespace BlockEditor.Decimal

/-- `mantissa * 2 ^ exponent`. -/
structure Binary where
  mantissa : Nat
  exponent : Int
deriving DecidableEq, Repr

/-- The magnitude of a finite double. -/
def magnitude (x : Float) : Binary :=
  let bits : Nat := x.toBits.toNat
  let fraction : Nat := bits % Nat.pow 2 52
  let biased : Nat := bits / Nat.pow 2 52 % Nat.pow 2 11
  if biased = 0 then ⟨fraction, -1074⟩ else ⟨Nat.pow 2 52 + fraction, (biased : Int) - 1075⟩

/-- `digits * 10 ^ exponent`. -/
structure Scaled where
  digits : Nat
  exponent : Int
deriving DecidableEq, Repr

/-- A magnitude in quarters of its step with the grid of multiples of `10 ^ exponent` brought to a
common denominator: the double is `value / unit` grid steps, and its interval reaches `below` and
`above` from there. -/
structure Placement where
  unit : Nat
  value : Nat
  below : Nat
  above : Nat
  closed : Bool
deriving DecidableEq, Repr

def Placement.of (b : Binary) (exponent : Int) : Placement :=
  let quarter := b.exponent - 2
  let scale := Nat.pow 2 quarter.toNat * Nat.pow 10 (-exponent).toNat
  { unit := Nat.pow 2 (-quarter).toNat * Nat.pow 10 exponent.toNat
    value := 4 * b.mantissa * scale
    below := (if b.mantissa = Nat.pow 2 52 ∧ -1074 < b.exponent then 1 else 2) * scale
    above := 2 * scale
    closed := b.mantissa % 2 = 0 }

def Placement.holds (p : Placement) (steps : Nat) : Bool :=
  let point := steps * p.unit
  if p.closed then p.value ≤ point + p.below && point ≤ p.value + p.above
  else p.value < point + p.below && point < p.value + p.above

/-- Which of two decimals is taken that are equally near. -/
inductive Tie where
  | up
  | toEven
deriving DecidableEq, Repr

/-- Whether the double goes to the lower one of the grid points around it. -/
def Placement.prefersLow (p : Placement) (tie : Tie) (low : Nat) : Bool :=
  let past := 2 * (p.value - low * p.unit)
  past < p.unit || (tie = .toEven && past = p.unit && low % 2 = 0)

/-- The grid point next to the double that lies in its interval, the nearer one if both do. -/
def Placement.nearest? (p : Placement) (tie : Tie) : Option Nat :=
  let low := p.value / p.unit
  let high := low + 1
  match p.holds low && 0 < low, p.holds high with
  | true, true => some (if p.prefersLow tie low then low else high)
  | true, false => some low
  | false, true => some high
  | false, false => none

def digitCount (n : Nat) : Nat :=
  (Nat.toDigits 10 n).length

/-- Exponent of the first digit: `10 ^ k` is the greatest power of ten not above the magnitude. -/
def firstDigit (b : Binary) : Int :=
  if 0 ≤ b.exponent then
    (digitCount (b.mantissa * Nat.pow 2 b.exponent.toNat) : Int) - 1
  else
    let bits := (-b.exponent).toNat
    (digitCount (b.mantissa * Nat.pow 10 bits / Nat.pow 2 bits) : Int) - 1 - bits

/-- The first decimal of the interval among those with `count`, `count + 1`, … digits, the first of
them at the place `top`. The next power of ten has one digit more, all of them zero but the first. -/
def search (b : Binary) (tie : Tie) (top : Int) : (tries count : Nat) → Scaled
  | 0, _ => ⟨0, 0⟩
  | tries + 1, count =>
    let exponent := top - count + 1
    match (Placement.of b exponent).nearest? tie with
    | some digits => if digits = Nat.pow 10 count then ⟨1, top + 1⟩ else ⟨digits, exponent⟩
    | none => search b tie top tries (count + 1)

/-- The shortest decimal of a magnitude. Seventeen digits always suffice. -/
def shortest (tie : Tie) (b : Binary) : Scaled :=
  if b.mantissa = 0 then ⟨0, 0⟩ else search b tie (firstDigit b) 18 1

/-- Written out in full. -/
def Scaled.text (d : Scaled) : String :=
  let digits := Nat.toDigits 10 d.digits
  if 0 ≤ d.exponent then
    String.ofList (digits ++ List.replicate d.exponent.toNat '0')
  else
    let places := (-d.exponent).toNat
    let padded := List.replicate (places + 1 - digits.length) '0' ++ digits
    let whole := padded.take (padded.length - places)
    let fraction := padded.drop (padded.length - places)
    let kept := (fraction.reverse.dropWhile (· == '0')).reverse
    if kept.isEmpty then String.ofList whole else String.ofList (whole ++ '.' :: kept)

def isNegative (x : Float) : Bool :=
  x.toBits >>> 63 == 1

/-- The text of a double in messages. -/
def text (x : Float) : String :=
  if x.isNaN then "NaN"
  else
    let size := if x.isFinite then (shortest .up (magnitude x)).text else "inf"
    if isNegative x then "-" ++ size else size

end BlockEditor.Decimal
