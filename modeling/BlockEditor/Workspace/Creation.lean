import BlockEditor.Workspace.Units

/-!
# New blocks

A new block is made after the definition of its type. It lies at the origin, hangs on nothing,
and is the last of the top blocks.
-/

namespace BlockEditor.Edit

variable {α : Type} [Scalar α]

def allocateBlock : Edit α BlockId :=
  modifyGet fun ws =>
    let (id, ids) := ws.ids.nextBlock
    (id, { ws with ids })

/-- Make the connection that a definition asks for. -/
def mountEnd (id : BlockId) (kind : ConnectionKind) :
    Option ConnectionTemplate → Edit α (Option ConnectionId)
  | none => return none
  | some spec => return some (← newConnection id kind spec.check)

/-- Register a call block under the procedure that it names. -/
def registerCall (id : BlockId) : Edit α Unit := do
  let name := ((← query (·.block id)).fieldText? Container.procedureField).getD ""
  modify fun ws => { ws with procedures := ws.procedures.register name id }

/-- What a container has beyond its definition. -/
def finishContainer (id : BlockId) (spec : ContainerTemplate) : Edit α Unit := do
  initContainer id spec
  if spec.kind = .call then registerCall id

def newBlock (typeName : String) : Edit α BlockId := do
  match (← get).registry.get? typeName with
  | none => throw (.unknownBlockType typeName)
  | some d =>
    let id ← allocateBlock
    let output ← mountEnd id .outputValue d.output
    let previous ← mountEnd id .previousStatement d.previous
    let next ← mountEnd id .nextStatement d.next
    let fresh : Block α :=
      { typeName := d.typeName
        container := d.container.map (·.kind)
        units := 0
        inputs := []
        output, previous, next
        placeholder := false
        movable := true
        inFlyout := false
        dragging := false
        position := Point.origin
        copyOnDrag := none }
    modify fun ws => { ws with blocks := ws.blocks.insert id fresh, top := ws.top ++ [id] }
    d.inputs.forM (addInput id)
    fire (.create id d.typeName)
    d.container.forM (finishContainer id)
    return id

def newPlaceholder (typeName : String) : Edit α BlockId := do
  let id ← newBlock typeName
  setPlaceholder id true
  return id

end BlockEditor.Edit
