import BlockEditor.Drag.Session
import BlockEditor.Workspace.Connect

/-!
# Putting a dragged block back

A drag is undone in the order that lets nothing be pushed out: the copy goes first, then the
statement below comes back, then the block goes back to where it was.
-/

namespace BlockEditor.Edit

variable {α : Type} [Scalar α]

/-- Dispose the copy that was left behind, unless it is gone. -/
def discardCopy (copy : BlockId) : Edit α Unit := do
  if (← get).hasBlock copy then dispose copy

/-- Put the statement that stayed behind below the block again, if both ends are still there. -/
def takeBackStack (block : BlockId) (plug : ConnectionId) : Edit α Unit := do
  match (← query (·.block block)).next with
  | none => return ()
  | some next => if (← get).connections.contains plug then connect plug next

/-- The socket that the block was in with the plug that goes with it, if they are still there. -/
def formerPlace (s : DragSession α) : Edit α (Option (ConnectionId × ConnectionId)) := do
  let ws ← get
  match s.parentSocket with
  | none => return none
  | some socket =>
    match ws.connections[socket]? with
    | none => return none
    | some c => return ((← query (·.block s.block)).plugFor? c.kind).map (socket, ·)

/-- Put the block back into its socket. A block that was in none, or whose socket is gone, goes
back to where it lay, unless it has a parent by now. -/
def takePlace (s : DragSession α) : Edit α Unit := do
  match ← formerPlace s with
  | some (socket, plug) => connect socket plug
  | none =>
    if (← query (·.parent s.block)).isNone then
      moveTo s.block s.start "drag"
      let _ ← keepInView s.block

/-- Undo what a drag did to the blocks. A placeholder that has lost its parent stays real. -/
def putBack (s : DragSession α) : Edit α Unit := do
  s.copy.forM discardCopy
  setCopyOnDrag s.block s.priorCopyOnDrag
  s.childPlug.forM (takeBackStack s.block)
  takePlace s
  if s.wasPlaceholder then
    if (← query (·.parent s.block)).isSome then setPlaceholder s.block true

/-- Forget the template of a connection, if it is still there. -/
def forgetTemplate (id : ConnectionId) : Edit α Unit :=
  modify fun ws =>
    { ws with connections := ws.connections.modify id fun c => { c with template := none } }

/-- Undo a start that failed, as far as it went and as far as it can be undone. -/
def rollBack (s : DragSession α) : Edit α Unit := do
  try putBack s catch _ => pure ()
  s.templateSocket.forM forgetTemplate

end BlockEditor.Edit
