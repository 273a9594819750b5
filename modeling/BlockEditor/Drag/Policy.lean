import BlockEditor.Workspace.Tree

/-!
# Who may be dragged

A placeholder belongs to the block that carries it. Unless its type may be dragged on its own, a
drag of it is a drag of the nearest real block above.
-/

namespace BlockEditor.Workspace

variable {α : Type}

def isMovableWithin (ws : Workspace α) : Nat → BlockId → Answer α Bool
  | 0, _ => return false
  | steps + 1, id => do
    match ws.blocks[id]? with
    | none => return false
    | some b =>
      if b.placeholder then
        match ← ws.parent id with
        | some above => ws.isMovableWithin steps above
        | none => return false
      else
        return b.movable && !b.inFlyout && !ws.config.readOnly

/-- Whether a drag may move a block. A placeholder moves with its parent; a real block can be
fixed, or lie in the flyout, or the workspace can be read-only. -/
def isMovable (ws : Workspace α) (id : BlockId) : Answer α Bool :=
  ws.isMovableWithin ws.walkBound id

def realAboveWithin (ws : Workspace α) : Nat → BlockId → Answer α BlockId
  | 0, id => throw (.placeholderWithoutParent id)
  | steps + 1, id => do
    match ← ws.parent id with
    | none => throw (.placeholderWithoutParent id)
    | some above =>
      if (← ws.block above).placeholder then ws.realAboveWithin steps above else return above

/-- The nearest block above that is no placeholder. -/
def realAbove (ws : Workspace α) (id : BlockId) : Answer α BlockId :=
  ws.realAboveWithin ws.walkBound id

/-- The block that a drag of `id` moves, and what leads from places of `id` to places of that
block. -/
def dragTarget [Scalar α] (ws : Workspace α) (id : BlockId) : Answer α (BlockId × Point α) := do
  let b ← ws.block id
  if !b.placeholder || ws.config.allowsDragOf b.typeName then return (id, Point.origin)
  let above ← ws.realAbove id
  return (above, (← ws.block above).position - b.position)

/-- Whether the rules say that a copy of a child stays in its parent. -/
def rulesKeepCopy (ws : Workspace α) (id : BlockId) (b : Block α) : Answer α Bool := do
  match ← ws.parent id with
  | none => return false
  | some above =>
    let input ← ws.holdingInput id
    return ws.config.copyOnDrag.cover (← ws.block above).typeName input b.typeName

/-- Whether something stays behind when a block is dragged out of its parent. A placeholder always
leaves one. Otherwise the block itself decides, or else the rules. -/
def leavesCopy (ws : Workspace α) (id : BlockId) : Answer α Bool := do
  let b ← ws.block id
  if b.placeholder then return true
  match b.copyOnDrag with
  | some decision => return decision
  | none => ws.rulesKeepCopy id b

end BlockEditor.Workspace
