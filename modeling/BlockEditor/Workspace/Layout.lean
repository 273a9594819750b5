import BlockEditor.Workspace.Tree

/-!
# Layout

Connections lie in fixed columns and rows: value inputs step to the right along the top edge,
statement inputs step down an indented column, and the next statement lies below the last row.
That is enough to search for near connections; real geometry is the host's.

A block that is plugged in is moved so that its plug lies on the socket, and what hangs below it
moves along.
-/

namespace BlockEditor

variable {α : Type} [Scalar α]

namespace Layout

def columnWidth : Nat := 40

def rowHeight : Nat := 40

def statementIndent : Nat := 16

/-- Where the connection of the input at `index` lies. -/
def inputOffset (kind : InputKind) (index : Nat) : Point α :=
  match kind with
  | .statement =>
    ⟨Scalar.ofNat statementIndent, Scalar.ofNat rowHeight * Scalar.ofNat (index + 1)⟩
  | _ => ⟨Scalar.ofNat columnWidth * Scalar.ofNat (index + 1), 0⟩

/-- Where the connections of a list of inputs lie. -/
def inputOffsets (inputs : List Input) : List (ConnectionId × Point α) :=
  inputs.zipIdx.filterMap fun (input, index) =>
    input.connection.map (·, inputOffset input.kind index)

/-- Where each connection of a block lies, seen from the block. -/
def offsets (b : Block α) : List (ConnectionId × Point α) :=
  b.plugs.map (·, Point.origin)
    ++ inputOffsets b.inputs
    ++ b.next.toList.map
      (·, ⟨0, Scalar.ofNat rowHeight * Scalar.ofNat (b.inputs.length + 1)⟩)

end Layout

namespace Workspace

def endPosition (ws : Workspace α) (id : ConnectionId) : Answer α (Point α) := do
  let c ← ws.connection id
  return (← ws.block c.block).position + c.offset

/-- The sockets of a block that something is plugged into. -/
def occupiedSockets (ws : Workspace α) (b : Block α) : List ConnectionId :=
  b.sockets.filter fun id =>
    match ws.connections[id]? with
    | some c => c.isConnected
    | none => false

/-- Put connections where they belong on their blocks. -/
def place (ws : Workspace α) (places : List (ConnectionId × Point α)) : Workspace α :=
  { ws with
    connections := places.foldl
      (fun connections (id, offset) => connections.modify id fun c => { c with offset := offset })
      ws.connections }

end Workspace

namespace Edit

def requireFinite (p : Point α) : Edit α Unit :=
  if p.isFinite then return () else throw (.nonFiniteLocation p.x p.y)

/-- Shift a block with everything below it. -/
def translate (id : BlockId) (delta : Point α) : Edit α Unit := do
  if delta.same Point.origin then return ()
  else
    (← query (·.descendants id)).forM fun b =>
      updateBlock b fun b => { b with position := b.position + delta }

/-- Move a block with everything below it so that it lies at `location`. -/
def moveTo (id : BlockId) (location : Point α) (reason : String) : Edit α Unit := do
  requireFinite location
  let before := (← query (·.block id)).position
  translate id (location - before)
  fire (.move id before location reason)

def moveBy (id : BlockId) (delta : Point α) (reason : String) : Edit α Unit := do
  let before := (← query (·.block id)).position
  moveTo id (before + delta) reason

/-- Bring the block plugged into a socket to where its plug lies on the socket. -/
def bringToSocket (socket : ConnectionId) : Edit α Unit := do
  match (← query (·.connection socket)).target with
  | none => return ()
  | some plug =>
    let end_ ← query (·.connection plug)
    let wanted := (← query (·.endPosition socket)) - end_.offset
    let child ← query (·.block end_.block)
    translate end_.block (wanted - child.position)

/-- Put the connections of a block where they belong, and what hangs on it onto its sockets. -/
def layOut (id : BlockId) : Edit α Unit := do
  let b ← query (·.block id)
  let occupied := (← get).occupiedSockets b
  modify (·.place (Layout.offsets b))
  occupied.forM bringToSocket

/-- Move a block without a parent to the grid, if the configuration says so. Whether it moved. -/
def moveToGrid (id : BlockId) : Edit α Bool := do
  match (← get).config.grid with
  | none => return false
  | some grid =>
    if !grid.snap then return false
    else if (← query (·.parent id)).isSome then return false
    else
      let before := (← query (·.block id)).position
      let snapped := before.snap grid.spacing
      if snapped.same before then return false
      else
        moveTo id snapped "snap"
        return true

/-- Move a block without a parent into the viewport, if there is one. Whether it moved. -/
def keepInView (id : BlockId) : Edit α Bool := do
  match (← get).viewport with
  | none => return false
  | some viewport =>
    if (← query (·.parent id)).isSome then return false
    else
      let before := (← query (·.block id)).position
      if viewport.contains before then return false
      else
        moveTo id (viewport.clamp before) "bump"
        return true

/-- Push a block aside that has lost its place. -/
def bumpAside (id : BlockId) : Edit α Unit := do
  let delta := (← get).config.bumpDelta
  moveBy id ⟨delta, delta⟩ "bump"

end Edit

end BlockEditor
