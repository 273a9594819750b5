import BlockEditor.Scalar

/-!
# Points and rectangles of the canvas
-/

namespace BlockEditor

structure Point (α : Type) where
  x : α
  y : α
deriving DecidableEq, Repr

/-- An axis-aligned rectangle. `Rect.spanning` orders its sides. -/
structure Rect (α : Type) where
  left : α
  top : α
  right : α
  bottom : α
deriving DecidableEq, Repr

variable {α : Type} [Scalar α]

namespace Point

def origin : Point α := ⟨0, 0⟩

instance : Inhabited (Point α) := ⟨origin⟩

instance : Add (Point α) := ⟨fun p q => ⟨p.x + q.x, p.y + q.y⟩⟩

instance : Sub (Point α) := ⟨fun p q => ⟨p.x - q.x, p.y - q.y⟩⟩

def same (p q : Point α) : Bool :=
  Scalar.same p.x q.x && Scalar.same p.y q.y

/-- Euclidean distance. -/
def distance (p q : Point α) : α :=
  let dx := p.x - q.x
  let dy := p.y - q.y
  Scalar.sqrt (dx * dx + dy * dy)

def isFinite (p : Point α) : Bool :=
  Scalar.isFinite p.x && Scalar.isFinite p.y

/-- The nearest point whose coordinates are whole multiples of `spacing`. -/
def snap (spacing : α) (p : Point α) : Point α :=
  ⟨Scalar.round (p.x / spacing) * spacing, Scalar.round (p.y / spacing) * spacing⟩

end Point

namespace Rect

/-- The rectangle between two opposite corners, given in any order. -/
def spanning (left top right bottom : α) : Rect α where
  left := Scalar.least left right
  top := Scalar.least top bottom
  right := Scalar.greatest left right
  bottom := Scalar.greatest top bottom

def contains (r : Rect α) (p : Point α) : Bool :=
  Scalar.le r.left p.x && Scalar.le p.x r.right && Scalar.le r.top p.y && Scalar.le p.y r.bottom

/-- The point of the rectangle nearest to `p`. -/
def clamp (r : Rect α) (p : Point α) : Point α :=
  ⟨Scalar.clamp r.left r.right p.x, Scalar.clamp r.top r.bottom p.y⟩

end Rect

end BlockEditor
