import BlockEditor.Workspace.Basic

/-!
# Parents and children

A block hangs on the first of its plugs that is linked, and carries what its sockets are linked
to. The walks below go one link at a time. Blocks form trees, so no walk takes more steps than
there are blocks, and each walk counts its steps down from that bound.
-/

namespace BlockEditor.Workspace

variable {α : Type}

/-- More steps than a walk along the links can take. -/
def walkBound (ws : Workspace α) : Nat :=
  ws.blockCount + 1

/-- The block at the other end of a link. -/
def blockAcross (ws : Workspace α) (id : ConnectionId) : Answer α (Option BlockId) := do
  match (← ws.connection id).target with
  | some target => return some (← ws.connection target).block
  | none => return none

/-- The first target among some ends. -/
def firstTarget (ws : Workspace α) : List ConnectionId → Answer α (Option ConnectionId)
  | [] => return none
  | id :: rest => do
    match (← ws.connection id).target with
    | some target => return some target
    | none => ws.firstTarget rest

/-- The socket that a block is plugged into. -/
def parentSocket (ws : Workspace α) (id : BlockId) : Answer α (Option ConnectionId) := do
  ws.firstTarget (← ws.block id).plugs

def parent (ws : Workspace α) (id : BlockId) : Answer α (Option BlockId) := do
  match ← ws.parentSocket id with
  | some socket => return some (← ws.connection socket).block
  | none => return none

/-- The name of the input that holds a block. A block below a next connection is in none. -/
def holdingInput (ws : Workspace α) (id : BlockId) : Answer α (Option String) := do
  match ← ws.parentSocket id with
  | some socket =>
    let above ← ws.block (← ws.connection socket).block
    return (above.inputs.find? (·.connection = some socket)).map (·.name)
  | none => return none

/-- The blocks in the inputs from top to bottom, then the next block. -/
def children (ws : Workspace α) (id : BlockId) : Answer α (List BlockId) := do
  let found ← (← ws.block id).sockets.mapM ws.blockAcross
  return found.filterMap fun child => child

/-- Walk over a block and every block below it. `seen` holds those seen so far, latest first. -/
def descendantsFrom (ws : Workspace α) : Nat → List BlockId → BlockId → Answer α (List BlockId)
  | 0, seen, _ => return seen
  | steps + 1, seen, id => do
    (← ws.children id).foldlM (ws.descendantsFrom steps) (id :: seen)

/-- A block and every block below it, parents first. -/
def descendants (ws : Workspace α) (id : BlockId) : Answer α (List BlockId) := do
  return (← ws.descendantsFrom ws.walkBound [] id).reverse

def rootWithin (ws : Workspace α) : Nat → BlockId → Answer α BlockId
  | 0, id => return id
  | steps + 1, id => do
    match ← ws.parent id with
    | some above => ws.rootWithin steps above
    | none => return id

/-- The topmost block above, which may be the block itself. -/
def root (ws : Workspace α) (id : BlockId) : Answer α BlockId :=
  ws.rootWithin ws.walkBound id

def nextBlock (ws : Workspace α) (id : BlockId) : Answer α (Option BlockId) := do
  match (← ws.block id).next with
  | some next => ws.blockAcross next
  | none => return none

def inputNames (ws : Workspace α) (id : BlockId) : Answer α (List String) := do
  return (← ws.block id).inputs.map (·.name)

def inputSocket (ws : Workspace α) (id : BlockId) (name : String) :
    Answer α ConnectionId := do
  match ((← ws.block id).input? name).bind (·.connection) with
  | some c => return c
  | none => throw (.unknownInput id name)

def stackEndWithin (ws : Workspace α) (ignorePlaceholders : Bool) :
    Nat → BlockId → Answer α (Option ConnectionId)
  | 0, _ => return none
  | steps + 1, id => do
    match (← ws.block id).next with
    | none => return none
    | some next =>
      match ← ws.blockAcross next with
      | none => return some next
      | some below =>
        let b ← ws.block below
        if ignorePlaceholders && b.placeholder then return some next
        else ws.stackEndWithin ignorePlaceholders steps below

/-- The next connection at the bottom of a stack, if its last block has one. A placeholder at the
bottom can be taken for free space. -/
def stackEnd (ws : Workspace α) (id : BlockId) (ignorePlaceholders : Bool) :
    Answer α (Option ConnectionId) :=
  ws.stackEndWithin ignorePlaceholders ws.walkBound id

end BlockEditor.Workspace
