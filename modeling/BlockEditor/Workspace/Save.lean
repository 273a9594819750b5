import BlockEditor.Workspace.Units

/-!
# Taking snapshots

A snapshot of a block holds what it carries, to any depth. A placeholder that is plugged into an
input is stored as the template of the input, in place of the one that is kept there.
-/

namespace BlockEditor.Workspace

variable {α : Type}

/-- What an input holds, under its name; nothing if it is empty and has no template. -/
def saveInput (ws : Workspace α) (save : BlockId → Answer α Snapshot) (input : Input) :
    Answer α (Option (String × InputSnapshot Snapshot)) := do
  match input.connection with
  | none => return none
  | some c =>
    let template := (← ws.connection c).template
    match ← ws.blockAcross c with
    | none => return template.map fun t => (input.name, ⟨none, some t⟩)
    | some child =>
      let s ← save child
      return some (input.name, if s.placeholder then ⟨none, some s⟩ else ⟨some s, template⟩)

def saveNext (ws : Workspace α) (save : BlockId → Answer α Snapshot) (id : BlockId) :
    Answer α (Option Snapshot) := do
  match ← ws.nextBlock id with
  | some below => return some (← save below)
  | none => return none

def saveWithin (ws : Workspace α) : Nat → BlockId → Answer α Snapshot
  | 0, id => return Snapshot.ofType (← ws.block id).typeName
  | steps + 1, id => do
    let b ← ws.block id
    let extra ← if b.isContainer then some <$> ws.shape id else pure none
    let inputs ← b.inputs.mapM (ws.saveInput (ws.saveWithin steps))
    let next ← ws.saveNext (ws.saveWithin steps) id
    return {
      typeName := b.typeName
      placeholder := b.placeholder
      fields := Assoc.ofList (b.fields.filterMap Field.entry?)
      extra := extra
      inputs := Assoc.ofList (inputs.filterMap fun entry => entry)
      next := next
      copyOnDrag := b.copyOnDrag }

/-- The snapshot of a block with everything below it. -/
def save (ws : Workspace α) (id : BlockId) : Answer α Snapshot :=
  ws.saveWithin ws.walkBound id

end BlockEditor.Workspace
