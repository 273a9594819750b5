import BlockEditor.Workspace.Disposal
import BlockEditor.Workspace.Layout

/-!
# Links

A link joins a socket and a plug of two blocks. The steps here make and cut single links; they
keep the list of top blocks and report the change.
-/

namespace BlockEditor

variable {α : Type}

/-- The plug of a block that goes with a socket of the given kind. -/
def Block.plugFor? (b : Block α) : ConnectionKind → Option ConnectionId
  | .inputValue => b.output
  | .nextStatement => b.previous
  | .outputValue | .previousStatement => none

namespace Workspace

/-- Whether two ends may be linked: they are of opposite kinds and of distinct blocks, and fit. -/
def canConnect (ws : Workspace α) (a b : ConnectionId) : Answer α Bool := do
  let c ← ws.connection a
  let d ← ws.connection b
  return c.block ≠ d.block && c.kind.opposite = d.kind && c.fits d

/-- Socket and plug of the link that an end is part of. -/
def link? (ws : Workspace α) (id : ConnectionId) :
    Answer α (Option (ConnectionId × ConnectionId)) := do
  let c ← ws.connection id
  return c.target.map fun target => if c.kind.isSocket then (id, target) else (target, id)

/-- The plug with which a block is plugged into a socket. -/
def plugFor (ws : Workspace α) (socket : ConnectionId) (child : BlockId) :
    Answer α ConnectionId := do
  let c ← ws.connection socket
  match (← ws.block child).plugFor? c.kind with
  | some plug => return plug
  | none => throw (.missingConnection child socket)

end Workspace

namespace Edit

/-- Link a free socket and a free plug, which belongs to `child`. -/
def join [Scalar α] (socket plug : ConnectionId) (child : BlockId) : Edit α Unit := do
  updateConnection socket fun c => { c with target := some plug }
  updateConnection plug fun c => { c with target := some socket }
  modify fun ws => { ws with top := ws.top.filter (· ≠ child) }
  bringToSocket socket
  fire (.connect socket child)

/-- Plug a block that hangs on nothing into a free socket. -/
def hang [Scalar α] (socket : ConnectionId) (child : BlockId) : Edit α Unit := do
  let plug ← query (·.plugFor socket child)
  if ← query (·.canConnect socket plug) then join socket plug child
  else throw (.incompatibleConnection socket plug)

/-- Cut the link that an end is part of, if there is one. The lower block becomes a top block. -/
def unlink (id : ConnectionId) : Edit α Unit := do
  match ← query (·.link? id) with
  | none => return ()
  | some (socket, plug) =>
    let child := (← query (·.connection plug)).block
    updateConnection socket fun c => { c with target := none }
    updateConnection plug fun c => { c with target := none }
    modify fun ws => { ws with top := if ws.top.contains child then ws.top else ws.top ++ [child] }
    fire (.disconnect socket child)

end Edit

end BlockEditor
