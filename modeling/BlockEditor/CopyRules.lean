/-!
# Rules on leaving a copy behind

A rule names the type of a parent block and perhaps the input and the type of the child. When a
child that matches is dragged out of its parent, a copy stays in its place.
-/

namespace BlockEditor

structure CopyRule where
  parentType : String
  inputName : Option String
  childType : Option String
deriving DecidableEq, Repr

namespace CopyRule

/-- A child below the next connection is in no input, and a rule that names one does not match
it. -/
def covers (r : CopyRule) (parentType : String) (inputName : Option String) (childType : String) :
    Bool :=
  r.parentType = parentType
    && (r.inputName = none || r.inputName = inputName)
    && (r.childType = none || r.childType = some childType)

end CopyRule

structure CopyRules where
  rules : List CopyRule
deriving DecidableEq, Repr

namespace CopyRules

def empty : CopyRules := ⟨[]⟩

/-- Add a rule unless it is there already; whether it was added. -/
def add (rs : CopyRules) (r : CopyRule) : Bool × CopyRules :=
  if rs.rules.contains r then (false, rs) else (true, ⟨rs.rules ++ [r]⟩)

def cover (rs : CopyRules) (parentType : String) (inputName : Option String)
    (childType : String) : Bool :=
  rs.rules.any (·.covers parentType inputName childType)

def isEmpty (rs : CopyRules) : Bool :=
  rs.rules.isEmpty

end CopyRules

end BlockEditor
