import BlockEditor.Workspace.Tree
import Std.Data.ExtTreeSet

/-!
# Disposal

Blocks are taken out children first. A block that is taken out leaves the workspace at once, but
its connections stay until everything that goes with it is out; then they are removed together,
and what was linked to them is free.
-/

namespace BlockEditor

variable {α : Type}

/-- Blocks that were taken out, and connections that go with them. -/
structure Removal where
  blocks : Std.ExtTreeSet BlockId
  connections : List ConnectionId

namespace Removal

def empty : Removal := ⟨∅, []⟩

def withConnection (r : Removal) (id : ConnectionId) : Removal :=
  { r with connections := id :: r.connections }

def withBlock (r : Removal) (id : BlockId) (b : Block α) : Removal :=
  ⟨r.blocks.insert id, b.connections ++ r.connections⟩

end Removal

namespace Workspace

/-- The children, if they can all be found. -/
def branches (ws : Workspace α) (id : BlockId) : List BlockId :=
  match ws.children id with
  | .ok found => found
  | .error _ => []

/-- Take a block out of the workspace, unless it is gone already. -/
def takeOutOne (state : Workspace α × Removal) (id : BlockId) : Workspace α × Removal :=
  let (ws, r) := state
  match ws.blocks[id]? with
  | none => (ws, r)
  | some b =>
    ({ ws with
        blocks := ws.blocks.erase id
        procedures := if b.isCall then ws.procedures.forget id else ws.procedures
        events := ws.events.fire (.delete id) },
      r.withBlock id b)

def takeOutWithin : Nat → Workspace α × Removal → BlockId → Workspace α × Removal
  | 0, state, _ => state
  | steps + 1, state, id =>
    if state.1.hasBlock id then
      takeOutOne ((state.1.branches id).foldl (takeOutWithin steps) state) id
    else state

/-- Take a block and everything below it out of the workspace, children first. -/
def takeOut (ws : Workspace α) (r : Removal) (id : BlockId) : Workspace α × Removal :=
  takeOutWithin ws.walkBound (ws, r) id

def clearTarget (connections : Std.ExtTreeMap ConnectionId (Connection α)) (id : ConnectionId) :
    Std.ExtTreeMap ConnectionId (Connection α) :=
  connections.modify id fun c => { c with target := none }

/-- Remove the connections of what was taken out, and free what was linked to them. -/
def sweep (ws : Workspace α) (r : Removal) : Workspace α :=
  let freed := r.connections.filterMap fun id => (ws.connections[id]?).bind (·.target)
  { ws with
    connections := r.connections.foldl (·.erase ·) (freed.foldl clearTarget ws.connections)
    top := ws.top.filter (!r.blocks.contains ·) }

/-- Remove a block with everything below it. -/
def removeTree (ws : Workspace α) (id : BlockId) : Workspace α :=
  let (ws, r) := ws.takeOut Removal.empty id
  ws.sweep r

end Workspace

namespace Edit

/-- Take out what hangs on a connection, and mark the connection for removal. -/
def disposeEnd (r : Removal) (id : ConnectionId) : Edit α Removal := do
  match ← query (·.blockAcross id) with
  | none => return r.withConnection id
  | some child =>
    fire (.disconnect id child)
    let (ws, r) := (← get).takeOut r child
    set ws
    return r.withConnection id

/-- Remove the connections of inputs, and what hangs on them. -/
def disposeInputs (inputs : List Input) : Edit α Unit := do
  let r ← (inputs.filterMap (·.connection)).foldlM disposeEnd Removal.empty
  modify (·.sweep r)

end Edit

end BlockEditor
