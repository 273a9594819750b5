/-!
# Scalars

Everything the editor computes about positions needs only the operations below, so positions
are generic in the number they are made of. Doubles are the instance that runs; exact rationals
are another instance, over which the geometry can be reasoned about without rounding.

Comparisons are tests and not order relations: a scalar may be not a number, which is neither
below, above nor the same as anything.
-/

namespace BlockEditor

class Scalar (α : Type) extends Zero α, Add α, Sub α, Mul α, Div α where
  ofNat : Nat → α
  sqrt : α → α
  /-- The nearest whole number; a half goes away from zero. -/
  round : α → α
  le : α → α → Bool
  lt : α → α → Bool
  same : α → α → Bool
  isFinite : α → Bool

namespace Scalar

variable {α : Type} [Scalar α]

def isNumber (x : α) : Bool :=
  same x x

/-- The smaller of two scalars. What is not a number yields to what is one, and of two equal
scalars the first is taken. -/
def least (x y : α) : α :=
  if lt y x || !isNumber x then y else x

def greatest (x y : α) : α :=
  if lt x y || !isNumber x then y else x

/-- Bring `x` between the bounds; what is not a number stays as it is. -/
def clamp (low high x : α) : α :=
  let raised := if lt x low then low else x
  if lt high raised then high else raised

/-- Finite and above zero. -/
def isPositive (x : α) : Bool :=
  isFinite x && lt 0 x

end Scalar

/-- Nearest whole double, a half away from zero. From `2 ^ 52` on every double is whole. The sign
is kept, also the sign of a zero. -/
def roundHalfAway (x : Float) : Float :=
  let size := x.abs
  if size < 4503599627370496.0 then
    let floor := size.toUInt64.toFloat
    let rounded := if 0.5 ≤ size - floor then floor + 1.0 else floor
    if x.toBits >>> 63 == 1 then -rounded else rounded
  else
    x

instance : Scalar Float where
  ofNat := Float.ofNat
  sqrt := Float.sqrt
  round := roundHalfAway
  le x y := decide (x ≤ y)
  lt x y := decide (x < y)
  same x y := x == y
  isFinite := Float.isFinite

end BlockEditor
