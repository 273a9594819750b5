import BlockEditor.Geometry
import Mathlib.Data.Rat.Floor
import Mathlib.Data.Rat.Sqrt

/-!
# Exact scalars

Where nothing is rounded, a step that is taken back leads to where it came from, and steps may be
taken in any order. Rationals are exact; doubles are not.
-/

namespace BlockEditor

/-- Sums and differences are not rounded, and what is the same is equal. -/
class Scalar.Exact (α : Type) [Scalar α] : Prop where
  add_zero : ∀ x : α, x + 0 = x
  add_comm : ∀ x y : α, x + y = y + x
  add_assoc : ∀ x y z : α, x + y + z = x + (y + z)
  sub_add_cancel : ∀ x y : α, x - y + y = x
  eq_of_same : ∀ {x y : α}, Scalar.same x y → x = y

/-- The root of a rational that is no square is rounded; only distances are taken from roots. -/
instance : Scalar ℚ where
  ofNat n := n
  sqrt := Rat.sqrt
  round x := if 0 ≤ x then (⌊x + 1 / 2⌋ : ℤ) else -(⌊1 / 2 - x⌋ : ℤ)
  le x y := decide (x ≤ y)
  lt x y := decide (x < y)
  same x y := decide (x = y)
  isFinite _ := true

instance : Scalar.Exact ℚ where
  add_zero := Rat.add_zero
  add_comm := Rat.add_comm
  add_assoc := Rat.add_assoc
  sub_add_cancel x y := sub_add_cancel x y
  eq_of_same h := of_decide_eq_true h

namespace Point

variable {α : Type} [Scalar α] [Scalar.Exact α] {p q o : Point α}

theorem add_origin (p : Point α) : p + origin = p :=
  congrArg₂ Point.mk (Scalar.Exact.add_zero p.x) (Scalar.Exact.add_zero p.y)

theorem add_right_comm (p q o : Point α) : p + q + o = p + o + q := by
  have swap : ∀ x y z : α, x + y + z = x + z + y := fun x y z => by
    rw [Scalar.Exact.add_assoc, Scalar.Exact.add_comm y z, ← Scalar.Exact.add_assoc]
  exact congrArg₂ Point.mk (swap p.x q.x o.x) (swap p.y q.y o.y)

theorem sub_add_cancel (p q : Point α) : p - q + q = p :=
  congrArg₂ Point.mk (Scalar.Exact.sub_add_cancel p.x q.x) (Scalar.Exact.sub_add_cancel p.y q.y)

/-- What is moved by the difference to a place lies at that place. -/
theorem add_sub_cancel (p q : Point α) : p + (q - p) = q := by
  have swap : p + (q - p) = q - p + p :=
    congrArg₂ Point.mk (Scalar.Exact.add_comm p.x _) (Scalar.Exact.add_comm p.y _)
  rw [swap, sub_add_cancel]

theorem eq_of_same (h : p.same q) : p = q := by
  rw [Point.same, Bool.and_eq_true] at h
  exact congrArg₂ Point.mk (Scalar.Exact.eq_of_same h.1) (Scalar.Exact.eq_of_same h.2)

end Point

end BlockEditor
