import BlockEditor.Geometry
import BlockEditor.Ids
import BlockEditor.Json.Decode

/-!
# Notation of ids and places
-/

namespace BlockEditor

namespace BlockId

def toJson (id : BlockId) : Json :=
  .nat id.index.toNat

def ofJson? (j : Json) : Option BlockId :=
  j.word32?.map BlockId.mk

end BlockId

namespace ConnectionId

def toJson (id : ConnectionId) : Json :=
  .nat id.index.toNat

def ofJson? (j : Json) : Option ConnectionId :=
  j.word32?.map ConnectionId.mk

end ConnectionId

namespace Point

def toJson (p : Point Float) : Json :=
  .obj [("x", .float p.x), ("y", .float p.y)]

def ofJson? (j : Json) : Option (Point Float) := do
  let fields ← j.fields? ["x", "y"]
  return ⟨← fields.required 0 Json.float?, ← fields.required 1 Json.float?⟩

end Point

namespace Rect

def toJson (r : Rect Float) : Json :=
  .obj [("left", .float r.left), ("top", .float r.top), ("right", .float r.right),
    ("bottom", .float r.bottom)]

/-- The sides are taken as they are written. -/
def ofJson? (j : Json) : Option (Rect Float) := do
  let fields ← j.fields? ["left", "top", "right", "bottom"]
  return {
    left := ← fields.required 0 Json.float?
    top := ← fields.required 1 Json.float?
    right := ← fields.required 2 Json.float?
    bottom := ← fields.required 3 Json.float? }

end Rect

end BlockEditor
