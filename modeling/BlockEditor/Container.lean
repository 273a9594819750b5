import BlockEditor.Ids

/-!
# Kinds of containers

A container holds any number of units. A unit is one slot, or in a comprehension one slot for
the target, one for the iterable and perhaps one for the condition. The inputs of a container
stand in a fixed order: the opening mark, the element of a comprehension, the slots of each unit,
the closing mark, the controls.
-/

namespace BlockEditor

inductive ContainerKind where
  | list
  | tuple
  | set
  | dict
  | delete
  | call
  | comprehension (hasCondition : Bool)
deriving DecidableEq, Repr, Inhabited

namespace ContainerKind

/-- Stems of the names of one unit's slots. -/
def stems : ContainerKind → List String
  | comprehension true => ["target", "iter", "if"]
  | comprehension false => ["target", "iter"]
  | _ => ["input"]

def firstStem : ContainerKind → String
  | comprehension _ => "target"
  | _ => "input"

/-- What the slots accept; no list means anything. -/
def slotAccepts : ContainerKind → Option (List String)
  | dict => some ["dict_item", "dict_unpack"]
  | _ => none

def isComprehension : ContainerKind → Bool
  | comprehension _ => true
  | _ => false

/-- What stands before a slot: a keyword in a comprehension, elsewhere a comma from the second
unit on. -/
def labelBefore (kind : ContainerKind) (stem : String) (position : Nat) : Option String :=
  if kind.isComprehension then
    if stem = "target" then some "for"
    else if stem = "iter" then some "in"
    else if stem = "if" then some "if"
    else none
  else if 1 < position then some ","
  else none

end ContainerKind

namespace Container

def openInput : String := "open_with"

def closeInput : String := "close_with"

def controlsInput : String := "controls"

/-- The leading input of a comprehension. -/
def elementInput : String := "elt"

/-- The text field of a call block that holds the name of the procedure. -/
def procedureField : String := "func"

/-- The greatest number of units; its digits fill a slot's name. -/
def maxUnits : Nat := 999999

/-- A stem and a position of at least six digits, as in `input_000001`. -/
def slotName (stem : String) (position : Nat) : String :=
  let digits := Nat.toDigits 10 position
  stem ++ "_" ++ String.ofList (List.replicate (6 - digits.length) '0' ++ digits)

end Container

end BlockEditor
