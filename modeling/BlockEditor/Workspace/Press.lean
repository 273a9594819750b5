import BlockEditor.Workspace.Connect

/-!
# Pressing a control

A control is refused unless the container shows it. A unit that is added to a dictionary comes
with an entry.
-/

namespace BlockEditor.Edit

variable {α : Type} [Scalar α]

/-- Make a dictionary entry in the slot of a unit. -/
def fillUnit (id : BlockId) (unit : Nat) : Edit α Unit := do
  let entry ← newBlock "dict_item"
  let slot ← query (·.inputSocket id (Container.slotName "input" unit))
  attach slot entry

/-- Add a unit. A container that has as many as it can have still shows the control, and refuses
it. -/
def pressAdd (id : BlockId) (kind : ContainerKind) (units : Nat) : Edit α Unit := do
  if Container.maxUnits ≤ units then throw (.controlUnavailable id .add)
  setUnits id (units + 1)
  if kind = .dict then fillUnit id (units + 1)

def press (id : BlockId) (control : Control) : Edit α Unit := do
  let kind ← query (·.containerKindOf id)
  if (← query (·.controls id)).contains control then
    let units := (← query (·.block id)).units
    match control with
    | .add => pressAdd id kind units
    | .remove => setUnits id (units - 1)
  else
    throw (.controlUnavailable id control)

end BlockEditor.Edit
