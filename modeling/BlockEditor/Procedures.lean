import BlockEditor.Ids

/-!
# Callers of procedures

Call blocks by the name of the procedure they call. A block calls one procedure at a time.
-/

namespace BlockEditor

/-- Callers with the procedures they call, in order of registration. -/
structure Procedures where
  calls : List (String × BlockId)
deriving DecidableEq, Repr

namespace Procedures

def empty : Procedures := ⟨[]⟩

def forget (p : Procedures) (block : BlockId) : Procedures :=
  ⟨p.calls.filter (·.2 ≠ block)⟩

/-- Make `block` the latest caller of `name`, and of nothing else. -/
def register (p : Procedures) (name : String) (block : BlockId) : Procedures :=
  ⟨(p.forget block).calls ++ [(name, block)]⟩

def callers (p : Procedures) (name : String) : List BlockId :=
  (p.calls.filter (·.1 = name)).map (·.2)

def isRegistered (p : Procedures) (block : BlockId) : Bool :=
  p.calls.any (·.2 = block)

/-- Insert a name into an ascending list unless it is there. -/
def insertName (name : String) : List String → List String
  | [] => [name]
  | other :: rest =>
    if name = other then other :: rest
    else if name < other then name :: other :: rest
    else other :: insertName name rest

/-- The procedures that are called, in ascending order. -/
def names (p : Procedures) : List String :=
  p.calls.foldl (fun known (name, _) => insertName name known) []

end Procedures

end BlockEditor
