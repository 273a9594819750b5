import BlockEditor.Drag.Session
import BlockEditor.Format.Places
import BlockEditor.HostRequest
import BlockEditor.Tasks

/-!
# Notation of what the host is told

Requests, deferred tasks, candidates and outcomes of drags.
-/

namespace BlockEditor

namespace HostRequest

def toJson : HostRequest Float → Json
  | previewConnection own neighbour =>
    .tagged "command" "preview_connection"
      [("local", own.toJson), ("neighbour", neighbour.toJson)]
  | previewReplacement own neighbour replaced =>
    .tagged "command" "preview_replacement"
      [("local", own.toJson), ("neighbour", neighbour.toJson), ("replaced", replaced.toJson)]
  | hidePreview => .tagged "command" "hide_preview" []
  | disposePreview => .tagged "command" "dispose_preview" []
  | moveDuringDrag block location =>
    .tagged "command" "move_during_drag"
      [("block", block.toJson), ("location", location.toJson)]
  | connectionEffect block => .tagged "command" "connection_effect" [("block", block.toJson)]
  | disconnectEffect block => .tagged "command" "disconnect_effect" [("block", block.toJson)]
  | stopDisconnectEffect => .tagged "command" "stop_disconnect_effect" []
  | bringToFront block => .tagged "command" "bring_to_front" [("block", block.toJson)]
  | queueRender block => .tagged "command" "queue_render" [("block", block.toJson)]
  | textWidthCache enabled => .tagged "command" "text_width_cache" [("enabled", .bool enabled)]
  | resizesEnabled enabled => .tagged "command" "resizes_enabled" [("enabled", .bool enabled)]
  | dragLayer block active =>
    .tagged "command" "drag_layer" [("block", block.toJson), ("active", .bool active)]

/-- The field of a request that is about one block. -/
def blockOnly? (rest : Json) : Option BlockId := do
  (← rest.fields? ["block"]).required 0 BlockId.ofJson?

/-- The field of a request that turns something on or off. -/
def enabledOnly? (rest : Json) : Option Bool := do
  (← rest.fields? ["enabled"]).required 0 Json.bool?

def ofJson? (j : Json) : Option (HostRequest Float) := do
  let (name, rest) ← j.tagged? "command"
  match name with
  | "preview_connection" => do
    let fields ← rest.fields? ["local", "neighbour"]
    return previewConnection (← fields.required 0 ConnectionId.ofJson?)
      (← fields.required 1 ConnectionId.ofJson?)
  | "preview_replacement" => do
    let fields ← rest.fields? ["local", "neighbour", "replaced"]
    return previewReplacement (← fields.required 0 ConnectionId.ofJson?)
      (← fields.required 1 ConnectionId.ofJson?) (← fields.required 2 BlockId.ofJson?)
  | "hide_preview" => do rest.noFields?; return hidePreview
  | "dispose_preview" => do rest.noFields?; return disposePreview
  | "move_during_drag" => do
    let fields ← rest.fields? ["block", "location"]
    return moveDuringDrag (← fields.required 0 BlockId.ofJson?) (← fields.required 1 Point.ofJson?)
  | "connection_effect" => return connectionEffect (← blockOnly? rest)
  | "disconnect_effect" => return disconnectEffect (← blockOnly? rest)
  | "stop_disconnect_effect" => do rest.noFields?; return stopDisconnectEffect
  | "bring_to_front" => return bringToFront (← blockOnly? rest)
  | "queue_render" => return queueRender (← blockOnly? rest)
  | "text_width_cache" => return textWidthCache (← enabledOnly? rest)
  | "resizes_enabled" => return resizesEnabled (← enabledOnly? rest)
  | "drag_layer" => do
    let fields ← rest.fields? ["block", "active"]
    return dragLayer (← fields.required 0 BlockId.ofJson?) (← fields.required 1 Json.bool?)
  | _ => none

end HostRequest

namespace DeferredTask

def toJson : DeferredTask → Json
  | connectionFeedback inferior root =>
    .tagged "action" "connection_feedback"
      [("inferior", inferior.toJson), ("root", root.toJson)]
  | bringToFront block => .tagged "action" "bring_to_front" [("block", block.toJson)]

def ofJson? (j : Json) : Option DeferredTask := do
  let (name, rest) ← j.tagged? "action"
  match name with
  | "connection_feedback" => do
    let fields ← rest.fields? ["inferior", "root"]
    return connectionFeedback (← fields.required 0 BlockId.ofJson?)
      (← fields.required 1 BlockId.ofJson?)
  | "bring_to_front" => do
    let fields ← rest.fields? ["block"]
    return bringToFront (← fields.required 0 BlockId.ofJson?)
  | _ => none

end DeferredTask

namespace Candidate

def toJson (c : Candidate Float) : Json :=
  .obj [("local", c.own.toJson), ("neighbour", c.neighbour.toJson), ("distance", .float c.distance)]

def ofJson? (j : Json) : Option (Candidate Float) := do
  let fields ← j.fields? ["local", "neighbour", "distance"]
  return {
    own := ← fields.required 0 ConnectionId.ofJson?
    neighbour := ← fields.required 1 ConnectionId.ofJson?
    distance := ← fields.required 2 Json.float? }

end Candidate

namespace DragOutcome

def toJson : DragOutcome Float → Json
  | connected block candidate =>
    .tagged "outcome" "connected" [("block", block.toJson), ("candidate", candidate.toJson)]
  | dropped block location =>
    .tagged "outcome" "dropped" [("block", block.toJson), ("location", location.toJson)]

def ofJson? (j : Json) : Option (DragOutcome Float) := do
  let (name, rest) ← j.tagged? "outcome"
  match name with
  | "connected" => do
    let fields ← rest.fields? ["block", "candidate"]
    return connected (← fields.required 0 BlockId.ofJson?) (← fields.required 1 Candidate.ofJson?)
  | "dropped" => do
    let fields ← rest.fields? ["block", "location"]
    return dropped (← fields.required 0 BlockId.ofJson?) (← fields.required 1 Point.ofJson?)
  | _ => none

end DragOutcome

end BlockEditor
