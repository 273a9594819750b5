import BlockEditor.Format.Definition
import BlockEditor.Format.Places
import BlockEditor.Workspace.Tree

/-!
# Views of blocks

What a host needs to know of a block to show it.
-/

namespace BlockEditor

/-- The number of this interface. It changes with what the host sends or gets. -/
def interfaceVersion : Nat := 1

structure InputView where
  input : Input
  child : Option BlockId

structure BlockView (α : Type) where
  id : BlockId
  block : Block α
  nextBlock : Option BlockId
  parent : Option BlockId
  inputs : List InputView

namespace Workspace

variable {α : Type}

def viewInput (ws : Workspace α) (input : Input) : Answer α InputView := do
  match input.connection with
  | some c => return ⟨input, ← ws.blockAcross c⟩
  | none => return ⟨input, none⟩

def view (ws : Workspace α) (id : BlockId) : Answer α (BlockView α) := do
  let block ← ws.block id
  let inputs ← block.inputs.mapM ws.viewInput
  return { id, block, nextBlock := ← ws.nextBlock id, parent := ← ws.parent id, inputs }

end Workspace

def InputView.toJson (v : InputView) : Json :=
  .obj
    [ ("name", .str v.input.name),
      ("kind", v.input.kind.toJson),
      ("fields", .list Field.toJson v.input.fields),
      ("connection", .optional ConnectionId.toJson v.input.connection),
      ("child", .optional BlockId.toJson v.child) ]

def BlockView.toJson (v : BlockView Float) : Json :=
  .obj
    [ ("id", v.id.toJson),
      ("type", .str v.block.typeName),
      ("x", .float v.block.position.x),
      ("y", .float v.block.position.y),
      ("shadow", .bool v.block.placeholder),
      ("movable", .bool v.block.movable),
      ("items", .nat v.block.units),
      ("output", .optional ConnectionId.toJson v.block.output),
      ("previous", .optional ConnectionId.toJson v.block.previous),
      ("next", .optional ConnectionId.toJson v.block.next),
      ("nextBlock", .optional BlockId.toJson v.nextBlock),
      ("parent", .optional BlockId.toJson v.parent),
      ("inputs", .list InputView.toJson v.inputs) ]

end BlockEditor
