import BlockEditor.Workspace.Disposal
import BlockEditor.Workspace.Layout

/-!
# Editing the inputs of a block

Inputs are added at the end and cut anywhere, together with their connections and with what hangs
on them. The block has to be laid out after that; edits that come in batches do it once.
-/

namespace BlockEditor.Edit

variable {α : Type} [Scalar α]

/-- Make a connection of a block. -/
def newConnection (block : BlockId) (kind : ConnectionKind) (check : Option (List String)) :
    Edit α ConnectionId := do
  let ws ← get
  let (id, ids) := ws.ids.nextConnection
  let fresh : Connection α :=
    { block, kind, offset := Point.origin, check, target := none, template := none }
  set { ws with ids, connections := ws.connections.insert id fresh }
  return id

/-- Make an input after its template. -/
def mountInput (block : BlockId) (t : InputTemplate) : Edit α Input := do
  match t.kind.connection? with
  | none => return ⟨t.name, t.kind, t.fields, none⟩
  | some kind => return ⟨t.name, t.kind, t.fields, some (← newConnection block kind t.check)⟩

/-- Add inputs at the end, without laying the block out. -/
def pushInputs (id : BlockId) (templates : List InputTemplate) : Edit α Unit := do
  let _ ← query (·.block id)
  let inputs ← templates.mapM (mountInput id)
  updateBlock id fun b => { b with inputs := b.inputs ++ inputs }

def addInput (id : BlockId) (template : InputTemplate) : Edit α Unit := do
  pushInputs id [template]
  layOut id

/-- Remove the first input of the given name with what hangs on it; nothing if there is none. -/
def removeInput (id : BlockId) (name : String) : Edit α Unit := do
  match (← query (·.block id)).input? name with
  | none => return ()
  | some input =>
    updateBlock id fun b => { b with inputs := b.inputs.eraseP (·.name = name) }
    disposeInputs [input]
    layOut id

/-- Keep the first `length` inputs. The block is not laid out. -/
def cutInputs (id : BlockId) (length : Nat) : Edit α Unit := do
  let b ← query (·.block id)
  updateBlock id fun b => { b with inputs := b.inputs.take length }
  disposeInputs (b.inputs.drop length)

end BlockEditor.Edit
