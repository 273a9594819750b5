import BlockEditor.Drag.Policy
import BlockEditor.Drag.PutBack
import BlockEditor.Editor.Basic

/-!
# Gestures

A gesture starts with a block that is taken away from its parent, goes on with any number of
steps, and ends with the block dropped or put back. Only its start and its end change the blocks.
However it ends, the visuals are stopped and the group of events is closed.
-/

namespace BlockEditor.Act

variable {α : Type} [Scalar α]

/-- Stop showing a drag of a block. The block may be gone by now. -/
def clearVisuals (block : BlockId) : Act α Unit := do
  if (← get).workspace.hasBlock block then
    try edit (Edit.markDragging block false) catch _ => pure ()
  request (.textWidthCache false)
  request .stopDisconnectEffect
  request .hidePreview
  request (.dragLayer block false)

/-- Release what every gesture holds. -/
def finishGesture : Act α Unit := do
  request .disposePreview
  request (.resizesEnabled true)
  edit <| modify fun ws => { ws with events := ws.events.setGroup false }

/-- What comes last in a gesture whose block was held. -/
def closeGesture : Act α Unit := do
  finishGesture
  enter .idle

/-- Open a group of events, unless one is open. -/
def ensureGroup : Act α Unit :=
  edit <| modify fun ws =>
    { ws with events := if ws.events.group.isNone then ws.events.setGroup true else ws.events }

/-- Make a placeholder real, for it is about to leave. Its socket keeps a template. -/
def makeReal (block : BlockId) (socket : Option ConnectionId) : Act α Unit := do
  socket.forM fun c => do
    if (← query (·.connection c)).template.isNone then
      let template ← query (·.save block)
      edit <| Edit.updateConnection c fun c => { c with template := some template }
      updateSession fun s => { s with templateSocket := some c }
  edit (Edit.setPlaceholder block false)

/-- The plug of the statement below a block. -/
def plugBelow (b : Block α) : Act α (Option ConnectionId) := do
  match b.next with
  | some next => return (← query (·.connection next)).target
  | none => return none

/-- The socket that the output of a block is plugged into. -/
def valueSocket (b : Block α) : Act α (Option ConnectionId) := do
  match b.output with
  | some output => return (← query (·.connection output)).target
  | none => return none

/-- Leave a copy of a block in the socket that it was in. The block itself leaves no more
copies. -/
def leaveCopy (block : BlockId) (socket : ConnectionId) (snapshot : Snapshot) : Act α Unit := do
  let copy ← edit (Edit.restore snapshot)
  updateSession fun s => { s with copy := some copy }
  edit (Edit.attach socket copy)
  edit (Edit.setCopyOnDrag block (some false))

/-- Take a block away from its parent, and from the statement below if that is to stay behind. -/
def detach (block : BlockId) (heal : Bool) : Act α Unit := do
  let keepsCopy ← query (·.leavesCopy block)
  let b ← query (·.block block)
  updateSession fun s =>
    { s with wasPlaceholder := b.placeholder, priorCopyOnDrag := b.copyOnDrag }
  let socket ← valueSocket b
  if b.placeholder then makeReal block socket
  let parentSocket ← query (·.parentSocket block)
  let childPlug ← if heal then plugBelow b else pure none
  updateSession fun s => { s with parentSocket, childPlug }
  let copied := if keepsCopy && !b.placeholder then socket else none
  match copied with
  | none => edit (Edit.pullOut block heal)
  | some c =>
    let snapshot ← query (·.save block)
    edit (Edit.pullOut block heal)
    leaveCopy block c snapshot
  request (.disconnectEffect block)

/-- Give up a gesture that could not be started. -/
def abandon (block : BlockId) : Act α Unit := do
  let s ← takeSession
  edit (Edit.rollBack s)
  clearVisuals block
  finishGesture

omit [Scalar α] in
/-- Whether a block hangs on something, or something is to stay behind. -/
def hasToDetach (block : BlockId) (heal : Bool) : Act α Bool := do
  if (← query (·.parent block)).isSome then return true
  else if heal then return (← query (·.nextBlock block)).isSome
  else return false

omit [Scalar α] in
def setSession (s : DragSession α) : Act α Unit :=
  modify fun e => { e with session := some s }

/-- Detach the block of a drag that is about to start, if that is needed. Answers what the drag has
to remember; if the block cannot be detached there is no drag. -/
def loosen (s : DragSession α) (heal : Bool) : Act α (DragSession α) := do
  if !(← hasToDetach s.block heal) then return s
  setSession s
  try detach s.block heal
  catch refusal =>
    abandon s.block
    throw refusal
  takeSession

omit [Scalar α] in
def requireIdle : Act α Unit := do
  if let some s := (← get).session then throw (.dragInProgress s.block)

/-- Pick a block up while none is held. -/
def takeUp (block : BlockId) (heal : Bool) : Act α BlockId := do
  let (target, offset) ← query (·.dragTarget block)
  if !(← query (·.isMovable target)) then throw (.notMovable target)
  ensureGroup
  let dragged ← query (·.descendants target)
  edit (Edit.fire (.drag target true dragged))
  let start := (← query (·.block target)).position
  request (.textWidthCache true)
  request (.resizesEnabled false)
  request .stopDisconnectEffect
  let s ← loosen (DragSession.begin target start offset) heal
  edit (Edit.markDragging target true)
  request (.dragLayer target true)
  setSession s
  enter .dragging
  return target

/-- Start a drag. Answers the block that is dragged, which carries `block` if that is a
placeholder that may not be dragged on its own. -/
def pickUp (block : BlockId) (heal : Bool) : Act α BlockId := do
  requireIdle
  takeUp block heal

/-- The candidate to hold: the one held before, if it is near enough, or the one found. -/
def choose (held : Option (Candidate α)) (found : Candidate α) (delta : Point α) :
    Act α (Candidate α) := do
  match held with
  | none => return found
  | some c =>
    let distance ← query (·.candidateDistance c delta)
    if keepsHeld distance found.distance (← get).workspace.config.holdPreference then
      return { c with distance := distance }
    else
      return found

omit [Scalar α] in
/-- Show what a drop would do. -/
def preview (block : BlockId) (c : Candidate α) : Act α Unit := do
  match ← query (·.displaced block c) with
  | some replaced => request (.previewReplacement c.own c.neighbour replaced)
  | none => request (.previewConnection c.own c.neighbour)

/-- Go on with a drag to a location. Answers the candidate that is then held. -/
def dragTo (location : Point α) : Act α (Option (Candidate α)) := do
  let s ← activeSession
  edit (Edit.requireFinite location)
  let location := location + s.offset
  updateSession fun s => { s with current := location }
  let delta := location - s.start
  request (.moveDuringDrag s.block location)
  match ← query (·.bestCandidate s.block s.candidate.isSome delta) with
  | none =>
    updateSession fun s => { s with candidate := none }
    if s.candidate.isSome then request .hidePreview
    return none
  | some found =>
    let chosen ← choose s.candidate found delta
    updateSession fun s => { s with candidate := some chosen }
    let isSame (c : Candidate α) : Bool := c.own = chosen.own && c.neighbour = chosen.neighbour
    if !s.candidate.any isSame then preview s.block chosen
    return some chosen

/-- Link the ends of a candidate, and let the connection be shown after the next layout. -/
def commit (block : BlockId) (c : Candidate α) : Act α Unit := do
  edit (Edit.connect c.own c.neighbour)
  let plug := if (← query (·.connection c.own)).kind.isSocket then c.neighbour else c.own
  let lower := (← query (·.connection plug)).block
  let root ← query (·.root block)
  edit <| modify fun ws =>
    { ws with tasks := ws.tasks.pushAfterLayout (.connectionFeedback lower root) }

/-- Put the dragged block where it is dropped, and connect it if a candidate is held. -/
def settle (s : DragSession α) (location : Point α) : Act α (DragOutcome α) := do
  edit (Edit.moveTo s.block location "drag")
  let outcome ← match s.candidate with
    | some c =>
      commit s.block c
      pure (DragOutcome.connected s.block c)
    | none =>
      request (.queueRender s.block)
      pure (DragOutcome.dropped s.block location)
  let _ ← edit (Edit.moveToGrid s.block)
  return outcome

/-- What is dragged along with a block; only the block itself if it is gone. -/
def draggedWith (block : BlockId) : Act α (List BlockId) := do
  match (← get).workspace.descendants block with
  | .ok found => return found
  | .error _ => return [block]

omit [Scalar α] in
def fireDragEnd (block : BlockId) : Act α Unit := do
  edit (Edit.fire (.drag block false (← draggedWith block)))

/-- Run a step and then, also if it is refused, what has to come after it. -/
def followedBy {β : Type} (step : Act α β) (after : Act α Unit) : Act α β := do
  let result ← try step catch refusal =>
    after
    throw refusal
  after
  return result

/-- End a drag at a location. -/
def dropAt (location : Point α) : Act α (DragOutcome α) := do
  let s ← takeSession
  enter .applying
  fireDragEnd s.block
  clearVisuals s.block
  followedBy (settle s (location + s.offset)) closeGesture

/-- What comes after a block was put back. -/
def closeReverted (block : BlockId) : Act α Unit := do
  if (← get).workspace.hasBlock block then fireDragEnd block
  clearVisuals block
  closeGesture

/-- Give up a drag, and put the block back to where it came from. -/
def cancelDrag : Act α Unit := do
  let s ← takeSession
  enter .reverting
  followedBy (edit (Edit.putBack s)) (closeReverted s.block)

end BlockEditor.Act
