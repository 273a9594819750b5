import BlockEditor.Drag.Candidate

/-!
# Drag sessions

What an editor remembers of a drag from its start to its end.
-/

namespace BlockEditor

/-- How far a gesture is. -/
inductive DragPhase where
  | idle
  | dragging
  | applying
  | reverting
deriving DecidableEq, Repr

structure DragSession (α : Type) where
  block : BlockId
  start : Point α
  current : Point α
  /-- The socket that the block was plugged into. -/
  parentSocket : Option ConnectionId
  /-- The plug of the statement that was below, if it stayed behind. -/
  childPlug : Option ConnectionId
  candidate : Option (Candidate α)
  /-- Added to the places that are reported for a placeholder. -/
  offset : Point α
  /-- The copy that was left in the socket. -/
  copy : Option BlockId
  wasPlaceholder : Bool
  /-- The block's own decision on copies before the drag. -/
  priorCopyOnDrag : Option Bool
  /-- The socket that was given its template by this drag. -/
  templateSocket : Option ConnectionId
deriving DecidableEq, Repr

namespace DragSession

/-- A drag of a block that has not moved yet. -/
def begin {α : Type} (block : BlockId) (start offset : Point α) : DragSession α where
  block := block
  start := start
  current := start
  parentSocket := none
  childPlug := none
  candidate := none
  offset := offset
  copy := none
  wasPlaceholder := false
  priorCopyOnDrag := none
  templateSocket := none

end DragSession

/-- What came of a drag. -/
inductive DragOutcome (α : Type) where
  | connected (block : BlockId) (candidate : Candidate α)
  | dropped (block : BlockId) (location : Point α)
deriving DecidableEq, Repr

end BlockEditor
