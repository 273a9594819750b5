import BlockEditor.Event
import BlockEditor.Format.Places

/-!
# Notation of events
-/

namespace BlockEditor

namespace Event

def toJson : Event Float → Json
  | create block typeName =>
    .tagged "type" "create" [("block", block.toJson), ("type_name", .str typeName)]
  | delete block => .tagged "type" "delete" [("block", block.toJson)]
  | drag block isStart descendants =>
    .tagged "type" "drag"
      [("block", block.toJson), ("is_start", .bool isStart),
        ("descendants", .list BlockId.toJson descendants)]
  | move block before after reason =>
    .tagged "type" "move"
      [("block", block.toJson), ("old_xy", before.toJson), ("new_xy", after.toJson),
        ("reason", .str reason)]
  | connect parent child =>
    .tagged "type" "connect" [("parent", parent.toJson), ("child", child.toJson)]
  | disconnect parent child =>
    .tagged "type" "disconnect" [("parent", parent.toJson), ("child", child.toJson)]
  | mutation block before after =>
    .tagged "type" "mutation"
      [("block", block.toJson), ("old_items", .nat before), ("new_items", .nat after)]

def ofJson? (j : Json) : Option (Event Float) := do
  let (name, rest) ← j.tagged? "type"
  match name with
  | "create" => do
    let fields ← rest.fields? ["block", "type_name"]
    return create (← fields.required 0 BlockId.ofJson?) (← fields.required 1 Json.str?)
  | "delete" => do
    let fields ← rest.fields? ["block"]
    return delete (← fields.required 0 BlockId.ofJson?)
  | "drag" => do
    let fields ← rest.fields? ["block", "is_start", "descendants"]
    return drag (← fields.required 0 BlockId.ofJson?) (← fields.required 1 Json.bool?)
      (← fields.required 2 (Json.list? BlockId.ofJson?))
  | "move" => do
    let fields ← rest.fields? ["block", "old_xy", "new_xy", "reason"]
    return move (← fields.required 0 BlockId.ofJson?) (← fields.required 1 Point.ofJson?)
      (← fields.required 2 Point.ofJson?) (← fields.required 3 Json.str?)
  | "connect" => do
    let fields ← rest.fields? ["parent", "child"]
    return connect (← fields.required 0 ConnectionId.ofJson?) (← fields.required 1 BlockId.ofJson?)
  | "disconnect" => do
    let fields ← rest.fields? ["parent", "child"]
    return disconnect (← fields.required 0 ConnectionId.ofJson?)
      (← fields.required 1 BlockId.ofJson?)
  | "mutation" => do
    let fields ← rest.fields? ["block", "old_items", "new_items"]
    return mutation (← fields.required 0 BlockId.ofJson?) (← fields.required 1 Json.count?)
      (← fields.required 2 Json.count?)
  | _ => none

end Event

namespace Recorded

variable {γ : Type}

def toJson (group : γ → Json) (r : Recorded γ Float) : Json :=
  .obj [("group", .optional group r.group), ("event", r.event.toJson)]

def ofJson? (group : Json → Option γ) (j : Json) : Option (Recorded γ Float) := do
  let fields ← j.fields? ["group", "event"]
  return ⟨← fields.optional 0 group, ← fields.required 1 Event.ofJson?⟩

end Recorded

end BlockEditor
