import BlockEditor.Drag.Session
import BlockEditor.HostRequest
import BlockEditor.Workspace.Press

/-!
# The editor

An editor is a workspace, perhaps a drag under way, and the requests that the host has not fetched
yet. What the editor does may be refused; it keeps what it had done by then.
-/

namespace BlockEditor

structure Editor (α : Type) where
  workspace : Workspace α
  session : Option (DragSession α)
  /-- Oldest first. -/
  requests : List (HostRequest α)
  /-- How far the gesture is. -/
  phase : DragPhase

abbrev Act (α : Type) := EStateM (EditError α) (Editor α)

namespace Editor

variable {α : Type}

/-- An editor of an empty workspace. -/
def create [Scalar α] (config : EditorConfig α) (registry : Registry) : Answer α (Editor α) := do
  return ⟨← Workspace.create config registry, none, [], .idle⟩

/-- The candidate that is held. -/
def candidate (e : Editor α) : Option (Candidate α) :=
  e.session.bind (·.candidate)

end Editor

namespace Act

variable {α β : Type}

/-- Edit the workspace. -/
def edit (m : Edit α β) : Act α β := fun e =>
  match m e.workspace with
  | .ok result ws => .ok result { e with workspace := ws }
  | .error refusal ws => .error refusal { e with workspace := ws }

/-- Ask the workspace. -/
def query (q : Workspace α → Answer α β) : Act α β :=
  edit (Edit.query q)

/-- Ask the host for something. -/
def request (r : HostRequest α) : Act α Unit :=
  modify fun e => { e with requests := e.requests ++ [r] }

/-- Hand out the requests and forget them. -/
def fetchRequests : Act α (List (HostRequest α)) :=
  modifyGet fun e => (e.requests, { e with requests := [] })

def updateSession (f : DragSession α → DragSession α) : Act α Unit :=
  modify fun e => { e with session := e.session.map f }

/-- The drag under way. -/
def activeSession : Act α (DragSession α) := do
  match (← get).session with
  | some s => return s
  | none => throw .noActiveDrag

/-- Note how far the gesture is. -/
def enter (phase : DragPhase) : Act α Unit :=
  modify fun e => { e with phase }

/-- End the drag under way. -/
def takeSession : Act α (DragSession α) := do
  let s ← activeSession
  modify fun e => { e with session := none }
  return s

end Act

end BlockEditor
