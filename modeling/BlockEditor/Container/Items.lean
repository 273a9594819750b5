import BlockEditor.Container
import BlockEditor.Json.Basic
import BlockEditor.Text.Blank

/-!
# Persisted numbers of units

A stored shape is trusted as far as it can be: an integer counts, a text counts by the integer it
begins with, a double by its whole part. Anything below zero, and anything that is no number, is
no units at all; beyond `Container.maxUnits` nothing is added.
-/

namespace BlockEditor.Container

def capUnits (n : Nat) : Nat :=
  min n maxUnits

def isDigit (c : Char) : Bool :=
  '0' ≤ c && c ≤ '9'

/-- The digits at the front. -/
def leadingDigits (cs : List Char) : List Char :=
  cs.takeWhile isDigit

/-- The greatest integer that a text is told apart by. -/
def maxInteger : Nat := Nat.pow 2 127 - 1

/-- A number with one more digit at its end; what exceeds `maxInteger` on the way becomes that. -/
def appendDigit (n : Nat) (digit : Char) : Nat :=
  min (min (n * 10) maxInteger + (digit.toNat - '0'.toNat)) maxInteger

/-- The number that decimal digits write, or `maxInteger` if that is less. -/
def decimal (digits : List Char) : Nat :=
  digits.foldl appendDigit 0

/-- The sign at the front, if it is a minus, and what comes after one sign. -/
def splitSign : List Char → Bool × List Char
  | '-' :: rest => (true, rest)
  | '+' :: rest => (false, rest)
  | rest => (false, rest)

/-- The integer a text begins with, after blanks and at most one sign. -/
def leadingInteger? (cs : List Char) : Option Int :=
  let (negative, rest) := splitSign (Text.trimStart cs)
  let digits := leadingDigits rest
  if digits.isEmpty then none
  else if negative then some (-decimal digits)
  else some (decimal digits)

/-- Whole part of a double, between -1 and one more than `maxUnits`. -/
def wholePart? (x : Float) : Option Int :=
  if !x.isFinite then none
  else if x ≤ -1.0 then some (-1)
  else if Float.ofNat (maxUnits + 1) ≤ x then some (maxUnits + 1)
  else some x.toUInt64.toNat

/-- The integer that a stored value stands for, if it is a count at all. -/
def count? : Json → Option Int
  | .num (.int n) => some n
  | .num (.float x) => wholePart? x
  | .str s => leadingInteger? s.toList
  | _ => none

/-- The number of units that a stored value stands for. -/
def unitsOf (stored : Option Json) : Nat :=
  match stored.bind count? with
  | some n => capUnits n.toNat
  | none => 0

/-- The stored shape of a container with `n` units. -/
def shapeOf (n : Nat) : Json :=
  .obj [("items", .nat n)]

/-- The number of units of a stored shape. -/
def unitsOfShape (shape : Json) : Nat :=
  unitsOf (shape.member? "items")

end BlockEditor.Container
