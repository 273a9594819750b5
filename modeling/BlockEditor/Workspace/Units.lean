import BlockEditor.Container.Items
import BlockEditor.Container.Templates
import BlockEditor.Workspace.Inputs

/-!
# The units of a container

Growing and shrinking a container. Units come and go at the end; the closing mark and the
controls are taken away before and put back after. What hangs on a slot that goes is disposed
with it.
-/

namespace BlockEditor

variable {α : Type}

namespace Workspace

/-- The controls that a container shows. -/
def controls (ws : Workspace α) (id : BlockId) : Answer α (List Control) := do
  let _ ← ws.containerKindOf id
  let b ← ws.block id
  return ((b.input? Container.controlsInput).map (·.actions)).getD []

/-- What is stored of the shape of a container. -/
def shape (ws : Workspace α) (id : BlockId) : Answer α Json := do
  let _ ← ws.containerKindOf id
  return Container.shapeOf (← ws.block id).units

end Workspace

namespace Edit

variable [Scalar α]

/-- Show the controls that go with the number of units. -/
def refreshControls (id : BlockId) : Edit α Unit := do
  let b ← query (·.block id)
  removeInput id Container.controlsInput
  addInput id (Container.controls b.units)

/-- Cut the slots of the units after the first `units` ones. -/
def cutSlots (id : BlockId) (kind : ContainerKind) (units : Nat) : Edit α Unit := do
  let first := Container.slotName kind.firstStem (units + 1)
  match (← query (·.block id)).indexOfInput? first with
  | some index => cutInputs id index
  | none => throw (.unknownInput id first)

/-- Go from `old` units to `new` ones, as far as the slots are concerned. -/
def resizeSlots (id : BlockId) (kind : ContainerKind) (old new : Nat) : Edit α Unit :=
  if old < new then pushInputs id (Container.slotsAfter kind old new)
  else if new < old then cutSlots id kind new
  else return ()

/-- Give a container a number of units, at most `Container.maxUnits`. -/
def setUnits (id : BlockId) (wanted : Nat) : Edit α Unit := do
  let spec ← query (·.containerTemplate id)
  let old := (← query (·.block id)).units
  let new := Container.capUnits wanted
  removeInput id Container.controlsInput
  removeInput id Container.closeInput
  resizeSlots id spec.kind old new
  updateBlock id fun b => { b with units := new }
  pushInputs id [Container.closing spec]
  refreshControls id
  if old ≠ new then fire (.mutation id old new)

/-- Give a new container its fixed inputs, and no units. -/
def initContainer (id : BlockId) (spec : ContainerTemplate) : Edit α Unit := do
  (Container.head spec).forM (addInput id)
  setUnits id 0

/-- Rebuild a container from a stored shape, from nothing. Answers the number of units. -/
def loadShape (id : BlockId) (shape : Json) : Edit α Nat := do
  let units := Container.unitsOfShape shape
  setUnits id 0
  setUnits id units
  return units

end Edit

end BlockEditor
