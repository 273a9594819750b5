import BlockEditor.Block
import BlockEditor.Config

/-!
# Refusals

Why an operation on the workspace is refused. Persisted state that is malformed is mended and not
refused, and a drag that finds nothing to connect to is no error.
-/

namespace BlockEditor

inductive EditError (α : Type) where
  | unknownBlock (block : BlockId)
  | unknownConnection (connection : ConnectionId)
  | unknownBlockType (typeName : String)
  | unknownInput (block : BlockId) (name : String)
  | notVariadic (block : BlockId)
  | missingConnection (block : BlockId) (target : ConnectionId)
  | incompatibleConnection (a b : ConnectionId)
  | placeholderWithoutParent (block : BlockId)
  | notMovable (block : BlockId)
  | dragInProgress (block : BlockId)
  | noActiveDrag
  | controlUnavailable (block : BlockId) (control : Control)
  | nonFiniteLocation (x y : α)
  | invalidConfig (fault : ConfigFault α)
deriving DecidableEq, Repr

/-- The refusal in words; `text` writes a scalar. -/
def EditError.message {α : Type} (text : α → String) : EditError α → String
  | unknownBlock block => "unknown block " ++ toString block
  | unknownConnection connection => "unknown connection " ++ toString connection
  | unknownBlockType typeName => "unknown block type '" ++ typeName ++ "'"
  | unknownInput block name =>
    "block " ++ toString block ++ " has no input named '" ++ name ++ "'"
  | notVariadic block => "block " ++ toString block ++ " is not a variadic container"
  | missingConnection block target =>
    "block " ++ toString block ++ " has no connection of the kind needed to attach to "
      ++ toString target
  | incompatibleConnection a b =>
    "connections " ++ toString a ++ " and " ++ toString b ++ " are not compatible"
  | placeholderWithoutParent block =>
    "tried to drag shadow " ++ toString block
      ++ " with no parent; shadow blocks should always have parents"
  | notMovable block => "block " ++ toString block ++ " is not movable"
  | dragInProgress block => "a drag of " ++ toString block ++ " is already in progress"
  | noActiveDrag => "no drag in progress"
  | controlUnavailable block control =>
    "control '" ++ control.name ++ "' is not available on " ++ toString block
  | nonFiniteLocation x y => "location (" ++ text x ++ ", " ++ text y ++ ") is not finite"
  | invalidConfig fault => "invalid editor config: " ++ fault.message text

end BlockEditor
