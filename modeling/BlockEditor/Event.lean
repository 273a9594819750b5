import BlockEditor.Geometry
import BlockEditor.Ids

/-!
# Events

What happened to the blocks of a workspace, in the order in which it happened.
-/

namespace BlockEditor

inductive Event (α : Type) where
  | create (block : BlockId) (typeName : String)
  | delete (block : BlockId)
  | drag (block : BlockId) (isStart : Bool) (descendants : List BlockId)
  | move (block : BlockId) (before after : Point α) (reason : String)
  | connect (parent : ConnectionId) (child : BlockId)
  | disconnect (parent : ConnectionId) (child : BlockId)
  | mutation (block : BlockId) (before after : Nat)
deriving DecidableEq, Repr

/-- Groups are numbered in the order in which they are opened. -/
structure GroupId where
  number : Nat
deriving DecidableEq, Repr, Inhabited

def GroupId.name (g : GroupId) : String :=
  "group-" ++ toString g.number

/-- An event with the group that was open when it was fired. -/
structure Recorded (γ α : Type) where
  group : Option γ
  event : Event α
deriving DecidableEq, Repr

end BlockEditor
