import BlockEditor.Workspace.Links

/-!
# Searching for connections

The nearest connection to plug into, and a new home for a block that was pushed out of its place.
-/

namespace BlockEditor.Workspace

variable {α : Type}

section Nearest

variable [Scalar α]

/-- Take a connection for the nearest one if it is no farther than the one found before. -/
def nearer (ws : Workspace α) (own : Connection α) (origin : Point α) (radius : α)
    (accept : Connection α → ConnectionId → Connection α → Bool)
    (found : Option (ConnectionId × α)) (id : ConnectionId) (c : Connection α) :
    Option (ConnectionId × α) :=
  if c.kind ≠ own.kind.opposite || c.block = own.block then found
  else
    match ws.blocks[c.block]? with
    | none => found
    | some owner =>
      let distance := origin.distance (owner.position + c.offset)
      let limit := (found.map (·.2)).getD radius
      if Scalar.le distance limit && accept own id c then some (id, distance) else found

/-- The nearest connection of the opposite kind, of another block, that is accepted and lies
within `radius` of the place that `own` has after a shift by `delta`. Of several at the same
distance it is the one made last. -/
def nearest (ws : Workspace α) (own : ConnectionId) (radius : α) (delta : Point α)
    (accept : Connection α → ConnectionId → Connection α → Bool) :
    Answer α (Option (ConnectionId × α)) := do
  let c ← ws.connection own
  let origin := (← ws.endPosition own) + delta
  return ws.connections.foldl (ws.nearer c origin radius accept) none

end Nearest

/-- The input connections of a block that an end may be linked to. -/
def fittingInputs (ws : Workspace α) (id : BlockId) (plug : ConnectionId) :
    Answer α (List ConnectionId) := do
  ((← ws.block id).inputs.filterMap (·.connection)).filterM (ws.canConnect plug)

/-- The input connection that an end may be linked to, if there is exactly one. -/
def onlyFit (ws : Workspace α) (id : BlockId) (plug : ConnectionId) :
    Answer α (Option ConnectionId) := do
  match ← ws.fittingInputs id plug with
  | [c] => return some c
  | _ => return none

/-- The real block that is plugged into a socket. Placeholders do not count. -/
def occupant (ws : Workspace α) (socket : ConnectionId) : Answer α (Option BlockId) := do
  match ← ws.blockAcross socket with
  | none => return none
  | some child =>
    let b ← ws.block child
    return if b.placeholder then none else some child

def valueHomeWithin (ws : Workspace α) (plug : ConnectionId) :
    Nat → BlockId → Answer α (Option ConnectionId)
  | 0, _ => return none
  | steps + 1, id => do
    match ← ws.onlyFit id plug with
    | none => return none
    | some socket =>
      match ← ws.occupant socket with
      | none => return some socket
      | some below => ws.valueHomeWithin plug steps below

/-- Where a value fits in below a block: down the chain of inputs that are the only ones to fit,
to the first that no real block is in. -/
def valueHome (ws : Workspace α) (id : BlockId) (plug : ConnectionId) :
    Answer α (Option ConnectionId) :=
  ws.valueHomeWithin plug ws.walkBound id

/-- Where a statement fits in below a block: at the bottom of its stack. -/
def statementHome (ws : Workspace α) (id : BlockId) (plug : ConnectionId) :
    Answer α (Option ConnectionId) := do
  match ← ws.stackEnd id true with
  | none => return none
  | some last => return if ← ws.canConnect plug last then some last else none

/-- A socket below a block for a plug that has lost its place. -/
def orphanHome (ws : Workspace α) (id : BlockId) (plug : ConnectionId) :
    Answer α (Option ConnectionId) := do
  if (← ws.connection plug).kind = .outputValue then ws.valueHome id plug
  else ws.statementHome id plug

end BlockEditor.Workspace
