import BlockEditor.Ids

/-!
# Deferred tasks

Feedback on a new connection waits until the host has laid out its blocks, and raising a block
waits one more turn.
-/

namespace BlockEditor

inductive DeferredTask where
  /-- Show that `inferior` was connected, and raise `root` on the next turn. -/
  | connectionFeedback (inferior root : BlockId)
  | bringToFront (block : BlockId)
deriving DecidableEq, Repr

structure TaskQueue where
  afterLayout : List DeferredTask
  nextTick : List DeferredTask
deriving DecidableEq, Repr

namespace TaskQueue

def empty : TaskQueue := ⟨[], []⟩

def pushAfterLayout (q : TaskQueue) (task : DeferredTask) : TaskQueue :=
  { q with afterLayout := q.afterLayout ++ [task] }

def pushNextTick (q : TaskQueue) (task : DeferredTask) : TaskQueue :=
  { q with nextTick := q.nextTick ++ [task] }

def isEmpty (q : TaskQueue) : Bool :=
  q.afterLayout.isEmpty && q.nextTick.isEmpty

end TaskQueue

end BlockEditor
