import BlockEditor.Definition
import BlockEditor.Error
import BlockEditor.Event.Log
import BlockEditor.Procedures
import BlockEditor.Tasks

/-!
# The workspace

A workspace holds the blocks and their connections, both by id, and the list of the blocks that
hang on no other. Connections are listed in the order of their ids, which is the order in which
they were made.

Queries are functions of the workspace that may be refused. Edits are steps that may be refused
and that keep what they had done by then.
-/

namespace BlockEditor

structure Workspace (α : Type) where
  config : EditorConfig α
  registry : Registry
  ids : IdSupply
  blocks : Std.ExtTreeMap BlockId (Block α)
  connections : Std.ExtTreeMap ConnectionId (Connection α)
  /-- The blocks without a parent, in the order in which they came to have none. -/
  top : List BlockId
  procedures : Procedures
  viewport : Option (Rect α)
  events : EventLog α
  tasks : TaskQueue

abbrev Answer (α : Type) := Except (EditError α)

abbrev Edit (α : Type) := EStateM (EditError α) (Workspace α)

namespace Workspace

variable {α : Type}

/-- An empty workspace, if the configuration is usable. -/
def create [Scalar α] (config : EditorConfig α) (registry : Registry) : Answer α (Workspace α) :=
  match config.fault? with
  | some fault => .error (.invalidConfig fault)
  | none => .ok {
      config := config
      registry := registry
      ids := IdSupply.fresh
      blocks := ∅
      connections := ∅
      top := []
      procedures := Procedures.empty
      viewport := none
      events := EventLog.withCapacity config.eventCapacity
      tasks := TaskQueue.empty }

def block (ws : Workspace α) (id : BlockId) : Answer α (Block α) :=
  match ws.blocks[id]? with
  | some b => .ok b
  | none => .error (.unknownBlock id)

def connection (ws : Workspace α) (id : ConnectionId) : Answer α (Connection α) :=
  match ws.connections[id]? with
  | some c => .ok c
  | none => .error (.unknownConnection id)

def hasBlock (ws : Workspace α) (id : BlockId) : Bool :=
  ws.blocks.contains id

def blockCount (ws : Workspace α) : Nat :=
  ws.blocks.size

/-- The live blocks by ascending id. -/
def blockIds (ws : Workspace α) : List BlockId :=
  ws.blocks.keys

def blocksOfType (ws : Workspace α) (typeName : String) : List BlockId :=
  (ws.blocks.toList.filter (·.2.typeName = typeName)).map (·.1)

/-- How the type of a block is built as a container. -/
def containerTemplate (ws : Workspace α) (id : BlockId) : Answer α ContainerTemplate := do
  let b ← ws.block id
  match (ws.registry.get? b.typeName).bind (·.container) with
  | some spec => return spec
  | none => throw (.notVariadic id)

def containerKindOf (ws : Workspace α) (id : BlockId) : Answer α ContainerKind := do
  match (← ws.block id).container with
  | some kind => return kind
  | none => throw (.notVariadic id)

end Workspace

namespace Edit

variable {α β : Type}

/-- Ask the workspace. -/
def query (q : Workspace α → Answer α β) : Edit α β := fun ws =>
  match q ws with
  | .ok answer => .ok answer ws
  | .error e => .error e ws

def updateBlock (id : BlockId) (f : Block α → Block α) : Edit α Unit := do
  let b ← query (·.block id)
  modify fun ws => { ws with blocks := ws.blocks.insert id (f b) }

def updateConnection (id : ConnectionId) (f : Connection α → Connection α) : Edit α Unit := do
  let c ← query (·.connection id)
  modify fun ws => { ws with connections := ws.connections.insert id (f c) }

def fire (event : Event α) : Edit α Unit :=
  modify fun ws => { ws with events := ws.events.fire event }

def setPlaceholder (id : BlockId) (on : Bool) : Edit α Unit :=
  updateBlock id fun b => { b with placeholder := on }

def setMovable (id : BlockId) (on : Bool) : Edit α Unit :=
  updateBlock id fun b => { b with movable := on }

def setInFlyout (id : BlockId) (on : Bool) : Edit α Unit :=
  updateBlock id fun b => { b with inFlyout := on }

/-- Override the rules on leaving a copy behind, or go back to them. -/
def setCopyOnDrag (id : BlockId) (value : Option Bool) : Edit α Unit :=
  updateBlock id fun b => { b with copyOnDrag := value }

def setViewport (viewport : Option (Rect α)) : Edit α Unit :=
  modify fun ws => { ws with viewport := viewport }

/-- Set a text field. A call block is registered under the procedure it then calls. -/
def setField (id : BlockId) (name value : String) : Edit α Unit := do
  let b ← query (·.block id)
  match setFieldAmong name value b.inputs with
  | none => throw (.unknownInput id name)
  | some inputs =>
    updateBlock id fun b => { b with inputs := inputs }
    if b.isCall && name = Container.procedureField then
      modify fun ws => { ws with procedures := ws.procedures.register value id }

end Edit

end BlockEditor
