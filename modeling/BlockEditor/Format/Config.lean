import BlockEditor.Config
import BlockEditor.Format.Definition
import BlockEditor.Json.Outline

/-!
# Notation of configurations

A configuration names what differs from the standard one; all of it is written back.
-/

namespace BlockEditor

/-- The records that configurations are written with. -/
inductive ConfigRecord where
  | config
  | grid
  | copyRule
deriving DecidableEq, Repr

namespace ConfigRecord

/-- Their fields. -/
def outline : Json.Outline ConfigRecord
  | config =>
    [ ("snap_radius", .whole),
      ("connecting_snap_radius", .whole),
      ("current_connection_preference", .whole),
      ("grid", .record grid),
      ("read_only", .whole),
      ("bump_delta", .whole),
      ("duplicate_on_drag", .list (.record copyRule)),
      ("draggable_shadows", .whole),
      ("event_log_capacity", .whole) ]
  | grid => [("spacing", .whole), ("snap", .whole)]
  | copyRule => [("parent_type", .whole), ("input_name", .whole), ("child_type", .whole)]

end ConfigRecord

namespace CopyRule

def toJson (r : CopyRule) : Json :=
  .record
    [ ("parent_type", some (.str r.parentType)),
      ("input_name", r.inputName.map .str),
      ("child_type", r.childType.map .str) ]

def ofJson? (j : Json) : Option CopyRule := do
  let fields ← j.fields? (ConfigRecord.outline.names .copyRule)
  return {
    parentType := ← fields.required 0 Json.str?
    inputName := ← fields.optional 1 Json.str?
    childType := ← fields.optional 2 Json.str? }

end CopyRule

namespace CopyRules

def toJson (rs : CopyRules) : Json :=
  .list CopyRule.toJson rs.rules

def ofJson? (j : Json) : Option CopyRules :=
  (j.list? CopyRule.ofJson?).map CopyRules.mk

end CopyRules

namespace Grid

def toJson (g : Grid Float) : Json :=
  .obj [("spacing", .float g.spacing), ("snap", .bool g.snap)]

def ofJson? (j : Json) : Option (Grid Float) := do
  let fields ← j.fields? (ConfigRecord.outline.names .grid)
  return ⟨← fields.required 0 Json.float?, ← fields.required 1 Json.bool?⟩

end Grid

namespace EditorConfig

def toJson (c : EditorConfig Float) : Json :=
  .obj
    [ ("snap_radius", .float c.snapRadius),
      ("connecting_snap_radius", .float c.connectingRadius),
      ("current_connection_preference", .float c.holdPreference),
      ("grid", .optional Grid.toJson c.grid),
      ("read_only", .bool c.readOnly),
      ("bump_delta", .float c.bumpDelta),
      ("duplicate_on_drag", c.copyOnDrag.toJson),
      ("draggable_shadows", .optional (.list .str) c.draggablePlaceholders),
      ("event_log_capacity", .nat c.eventCapacity) ]

def ofJson? (j : Json) : Option (EditorConfig Float) := do
  let fields ← j.fields? (ConfigRecord.outline.names .config)
  let usual : EditorConfig Float := standard
  return {
    snapRadius := ← fields.orElse 0 usual.snapRadius Json.float?
    connectingRadius := ← fields.orElse 1 usual.connectingRadius Json.float?
    holdPreference := ← fields.orElse 2 usual.holdPreference Json.float?
    grid := ← fields.optional 3 Grid.ofJson?
    readOnly := ← fields.orElse 4 usual.readOnly Json.bool?
    bumpDelta := ← fields.orElse 5 usual.bumpDelta Json.float?
    copyOnDrag := ← fields.orElse 6 usual.copyOnDrag CopyRules.ofJson?
    draggablePlaceholders := ← fields.optional 7 strings?
    eventCapacity := ← fields.orElse 8 usual.eventCapacity Json.count? }

end EditorConfig

end BlockEditor
