import BlockEditor.Definition

/-!
# The inputs of a container

What the inputs of a container are named, what they show and what they accept, by its kind and
its number of units.
-/

namespace BlockEditor.Container

/-- A row of fields without a connection. -/
def mark (name : String) (fields : List Field) : InputTemplate where
  name := name
  kind := .dummy
  fields := fields
  check := none

def slot (kind : ContainerKind) (position : Nat) (stem : String) : InputTemplate where
  name := slotName stem position
  kind := .value
  fields := (kind.labelBefore stem position).toList.map .label
  check := kind.slotAccepts

/-- The slots of one unit. -/
def unitSlots (kind : ContainerKind) (position : Nat) : List InputTemplate :=
  kind.stems.map (slot kind position)

/-- The slots of the units after the first `old` ones, up to `new`. -/
def slotsAfter (kind : ContainerKind) (old new : Nat) : List InputTemplate :=
  (List.range' (old + 1) (new - old)).flatMap (unitSlots kind)

/-- The opening mark. A call names its procedure there. -/
def opening (spec : ContainerTemplate) : InputTemplate :=
  mark openInput
    ((if spec.kind = .call then [.text procedureField ""] else []) ++ [.label spec.openWith])

/-- The element of a comprehension. -/
def element (spec : ContainerTemplate) : InputTemplate where
  name := elementInput
  kind := .value
  fields := []
  check := spec.elementCheck

/-- What comes before the slots. -/
def head (spec : ContainerTemplate) : List InputTemplate :=
  opening spec :: if spec.kind.isComprehension then [element spec] else []

/-- The closing mark; one without a text shows nothing. -/
def closing (spec : ContainerTemplate) : InputTemplate :=
  mark closeInput (if spec.closeWith.isEmpty then [] else [.label spec.closeWith])

/-- A unit can always be added, and one of several can be removed. -/
def controls (units : Nat) : InputTemplate :=
  mark controlsInput (.action .add :: if 1 < units then [.action .remove] else [])

end BlockEditor.Container
