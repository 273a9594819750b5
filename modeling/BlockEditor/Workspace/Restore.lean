import BlockEditor.Workspace.Creation
import BlockEditor.Workspace.Links

/-!
# Building from snapshots

A snapshot is built from the top down: a container gets its units before anything is plugged into
them. An input without a block gets the placeholder of its template.
-/

namespace BlockEditor.Edit

variable {α : Type} [Scalar α]

/-- What is to be done with the connection of an input, by the input's name. -/
abbrev Fillers (α : Type) := Std.ExtTreeMap String (ConnectionId → Edit α Unit)

/-- Fill those inputs of a block that there is something for. -/
def fillInputs (id : BlockId) (fillers : Fillers α) : Edit α Unit := do
  (← query (·.block id)).inputs.forM fun input =>
    match input.connection, fillers[input.name]? with
    | some c, some fill => fill c
    | _, _ => return ()

/-- Give the connection of an input its template, and plug in what is made for it. -/
def fillInput (template : Option Snapshot) (child : Option (Edit α BlockId)) (c : ConnectionId) :
    Edit α Unit := do
  updateConnection c fun c => { c with template := template }
  child.forM fun make => do hang c (← make)

/-- Plug what is made into the next connection of a block. -/
def fillNext (id : BlockId) (make : Edit α BlockId) : Edit α Unit := do
  match (← query (·.block id)).next with
  | some c => hang c (← make)
  | none => throw (.unknownInput id "next")

/-- Apply the stored shape, if the block is a container. -/
def fillShape (id : BlockId) (shape : Json) : Edit α Unit := do
  if (← query (·.block id)).isContainer then
    let _ ← loadShape id shape

mutual

/-- Build a block with everything below it as a new top block, as a placeholder if the snapshot
or the flag says so. -/
def build : Snapshot → Bool → Edit α BlockId
  | ⟨typeName, placeholder, fields, extra, inputs, next, copyOnDrag⟩, asPlaceholder => do
    let id ← newBlock typeName
    if placeholder || asPlaceholder then setPlaceholder id true
    extra.forM (fillShape id)
    fields.forM fun (name, value) => setField id name value
    setCopyOnDrag id copyOnDrag
    fillInputs id (.ofList (fillers inputs))
    (buildIfAny next false).forM (fillNext id)
    return id

def buildIfAny : Option Snapshot → Bool → Option (Edit α BlockId)
  | none, _ => none
  | some s, asPlaceholder => some (build s asPlaceholder)

def fillers : List (String × InputSnapshot Snapshot) →
    List (String × (ConnectionId → Edit α Unit))
  | [] => []
  | (name, ⟨block, template⟩) :: rest =>
    (name, fillInput template (buildIfAny block false <|> buildIfAny template true))
      :: fillers rest

end

/-- Build a snapshot as a new top block. -/
def restore (s : Snapshot) : Edit α BlockId :=
  build s false

/-- Give an empty connection the placeholder of its template, if it has one. -/
def respawn (c : ConnectionId) : Edit α (Option BlockId) := do
  let end_ ← query (·.connection c)
  if end_.isConnected then return none
  match end_.template with
  | none => return none
  | some template =>
    let placeholder ← build template true
    hang c placeholder
    return some placeholder

end BlockEditor.Edit
