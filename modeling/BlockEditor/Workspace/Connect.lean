import BlockEditor.Workspace.Restore
import BlockEditor.Workspace.Save
import BlockEditor.Workspace.Search

/-!
# Connecting and disconnecting

A socket holds one block. When another is plugged in, a placeholder that is in the way becomes
the template of the socket; a real block is pushed out, and goes to a place below the new block
if there is one that fits. An input that is left empty gets its placeholder back.
-/

namespace BlockEditor.Edit

variable {α : Type} [Scalar α]

/-- A block that was pushed out of its place, with the plug that it hung by. -/
structure Orphan where
  block : BlockId
  plug : ConnectionId
deriving DecidableEq, Repr

/-- Cut the link that an end is part of. The socket gets its placeholder back. -/
def disconnect (id : ConnectionId) : Edit α Unit := do
  match ← query (·.link? id) with
  | none => return ()
  | some (socket, _) =>
    unlink id
    let _ ← respawn socket

/-- Empty a socket. A placeholder is stored as the template, a real block is handed back. -/
def evict (socket : ConnectionId) : Edit α (Option Orphan) := do
  match (← query (·.connection socket)).target with
  | none => return none
  | some plug =>
    let occupant := (← query (·.connection plug)).block
    unlink socket
    if (← query (·.block occupant)).placeholder then
      let template ← query (·.save occupant)
      modify (·.removeTree occupant)
      updateConnection socket fun c => { c with template := some template }
      return none
    else
      return some ⟨occupant, plug⟩

/-- Plug `child` into a socket whatever was plugged in before on either side. Hands back the block
that was pushed out. -/
def plugIn (socket plug : ConnectionId) (child : BlockId) : Edit α (Option Orphan) := do
  disconnect plug
  let orphan ← evict socket
  join socket plug child
  return orphan

/-- Find a place for an orphan below a block, or push it aside. The place holds no real block, so
that nothing else is pushed out. -/
def resettle (below : BlockId) (orphan : Orphan) : Edit α Unit := do
  match ← query (·.orphanHome below orphan.plug) with
  | none => bumpAside orphan.block
  | some socket =>
    let _ ← plugIn socket orphan.plug orphan.block

/-- Link two ends, given in any order. -/
def connect (a b : ConnectionId) : Edit α Unit := do
  if ← query (·.canConnect a b) then
    let (socket, plug) := if (← query (·.connection a)).kind.isSocket then (a, b) else (b, a)
    if (← query (·.connection socket)).target = some plug then return ()
    let child := (← query (·.connection plug)).block
    (← plugIn socket plug child).forM (resettle child)
  else
    throw (.incompatibleConnection a b)

/-- Plug a block into a socket. -/
def attach (socket : ConnectionId) (child : BlockId) : Edit α Unit := do
  connect socket (← query (·.plugFor socket child))

/-- Let the statement below a block take the place that the block has left. -/
def healStack (next : ConnectionId) (above : Option ConnectionId) : Edit α Unit := do
  match (← query (·.connection next)).target with
  | none => return ()
  | some plug =>
    let below := (← query (·.connection plug)).block
    if (← query (·.block below)).placeholder then return ()
    unlink next
    above.forM fun socket => do
      let fits ← query (·.canConnect socket plug)
      let taken := (← query (·.connection socket)).isConnected
      if fits && !taken then connect socket plug

/-- Take a block away from its parent. If `heal` is set, the statement below stays behind. -/
def pullOut (id : BlockId) (heal : Bool) : Edit α Unit := do
  let b ← query (·.block id)
  match b.output, b.previous with
  | some output, _ => disconnect output
  | none, none => return ()
  | none, some previous =>
    let above := (← query (·.connection previous)).target
    disconnect previous
    if heal then b.next.forM (healStack · above)

/-- Dispose a block with everything below it. The input it was in gets its placeholder back. -/
def dispose (id : BlockId) : Edit α Unit := do
  let socket ← query (·.parentSocket id)
  socket.forM unlink
  modify (·.removeTree id)
  socket.forM fun c => do
    let _ ← respawn c

/-- Store the template of a connection, and build its placeholder if it is empty. -/
def setTemplate (id : ConnectionId) (template : Option Snapshot) :
    Edit α (Option BlockId) := do
  updateConnection id fun c => { c with template := template }
  respawn id

/-- Mark a block with everything below it as being dragged, or not. -/
def markDragging (id : BlockId) (on : Bool) : Edit α Unit := do
  (← query (·.descendants id)).forM fun b =>
    updateBlock b fun b => { b with dragging := on }

end BlockEditor.Edit
