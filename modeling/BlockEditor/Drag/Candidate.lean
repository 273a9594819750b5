import BlockEditor.Workspace.Search

/-!
# Candidates of a drag

While a block is dragged, the nearest connection that it could be plugged into is looked for at
every step. A candidate that is held stays until another one is nearer by more than a margin.
-/

namespace BlockEditor

/-- An end of the dragged block, or of the stack it leads, with an end near to it. -/
structure Candidate (α : Type) where
  own : ConnectionId
  neighbour : ConnectionId
  distance : α
deriving DecidableEq, Repr

variable {α : Type} [Scalar α]

/-- Whether the candidate that is held stays, although another one was found. -/
def keepsHeld (held found margin : α) : Bool :=
  Scalar.le (held - found) margin

namespace Workspace

omit [Scalar α] in
/-- The ends that a drop of a block could use: its own, and the one at the bottom of the stack it
leads. -/
def dragEnds (ws : Workspace α) (id : BlockId) : Answer α (List ConnectionId) := do
  let b ← ws.block id
  match ← ws.stackEnd id true with
  | none => return b.connections
  | some last => return if b.next = some last then b.connections else b.connections ++ [last]

omit [Scalar α] in
/-- Whether what is plugged in here can be pushed out: a placeholder, or a block that can be
moved. -/
def yields (ws : Workspace α) (c : Connection α) : Bool :=
  match c.target.bind (ws.connections[·]?) with
  | none => true
  | some plug =>
    match ws.blocks[plug.block]? with
    | none => false
    | some occupant => occupant.movable || occupant.placeholder

omit [Scalar α] in
/-- Whether the state of two ends allows a link. A next connection that is taken is offered to a
block that can carry on the stack. -/
def isOpenTo (ws : Workspace α) (hasNext : Bool) (own neighbour : Connection α) : Bool :=
  !own.isConnected &&
    match neighbour.kind with
    | .inputValue => ws.yields neighbour
    | .outputValue | .previousStatement => !neighbour.isConnected
    | .nextStatement => !neighbour.isConnected || hasNext

omit [Scalar α] in
/-- Whether an end may be offered to an end of the dragged blocks. -/
def offers (ws : Workspace α) (dragged : List BlockId) (hasNext : Bool) (own : Connection α)
    (_ : ConnectionId) (neighbour : Connection α) : Bool :=
  !dragged.contains neighbour.block && own.fits neighbour
    && (match ws.blocks[neighbour.block]? with
      | some owner => !owner.inFlyout
      | none => false)
    && ws.isOpenTo hasNext own neighbour

/-- Take the connection nearest to `own`, if it is no farther than the candidate found before. -/
def nearerCandidate (ws : Workspace α) (radius : α) (delta : Point α)
    (accept : Connection α → ConnectionId → Connection α → Bool)
    (found : Option (Candidate α)) (own : ConnectionId) : Answer α (Option (Candidate α)) := do
  match ← ws.nearest own ((found.map (·.distance)).getD radius) delta accept with
  | some (neighbour, distance) => return some ⟨own, neighbour, distance⟩
  | none => return found

/-- The best candidate for a block that is dragged by `delta`. The search is narrower while one is
held. -/
def bestCandidate (ws : Workspace α) (id : BlockId) (holding : Bool) (delta : Point α) :
    Answer α (Option (Candidate α)) := do
  let radius := if holding then ws.config.connectingRadius else ws.config.snapRadius
  let dragged ← ws.descendants id
  let hasNext := (← ws.block id).next.isSome
  (← ws.dragEnds id).foldlM (ws.nearerCandidate radius delta (ws.offers dragged hasNext)) none

/-- How far apart the ends of a candidate are when the dragged block is shifted by `delta`. -/
def candidateDistance (ws : Workspace α) (c : Candidate α) (delta : Point α) : Answer α α := do
  let own := (← ws.endPosition c.own) + delta
  return own.distance (← ws.endPosition c.neighbour)

omit [Scalar α] in
/-- The real block that a drop would push out without a new place for it. -/
def displaced (ws : Workspace α) (dragged : BlockId) (c : Candidate α) :
    Answer α (Option BlockId) := do
  if !(← ws.connection c.own).kind.isPlug then return none
  match (← ws.connection c.neighbour).target with
  | none => return none
  | some plug =>
    let occupant := (← ws.connection plug).block
    if (← ws.block occupant).placeholder then return none
    match ← ws.orphanHome dragged plug with
    | some _ => return none
    | none => return some occupant

end Workspace

end BlockEditor
