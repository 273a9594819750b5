import BlockEditor.Block
import Std.Data.ExtTreeMap

/-!
# Block definitions

A definition says which connections and inputs a new block of a type gets. The registry holds one
definition a type.
-/

namespace BlockEditor

structure ContainerTemplate where
  kind : ContainerKind
  openWith : String
  closeWith : String
  /-- What the leading input of a comprehension accepts. -/
  elementCheck : Option (List String)
deriving DecidableEq, Repr

structure InputTemplate where
  name : String
  kind : InputKind
  fields : List Field
  check : Option (List String)
deriving DecidableEq, Repr

/-- A connection of a new block and what it accepts. -/
structure ConnectionTemplate where
  check : Option (List String)
deriving DecidableEq, Repr

structure BlockDefinition where
  typeName : String
  category : String
  colour : String
  output : Option ConnectionTemplate
  previous : Option ConnectionTemplate
  next : Option ConnectionTemplate
  inputs : List InputTemplate
  container : Option ContainerTemplate
deriving DecidableEq, Repr

structure Registry where
  definitions : Std.ExtTreeMap String BlockDefinition

namespace Registry

def empty : Registry := ⟨∅⟩

/-- Add a definition; it replaces an earlier one of its type. -/
def register (r : Registry) (d : BlockDefinition) : Registry :=
  ⟨r.definitions.insert d.typeName d⟩

def registerAll (r : Registry) (ds : List BlockDefinition) : Registry :=
  ds.foldl register r

def get? (r : Registry) (typeName : String) : Option BlockDefinition :=
  r.definitions[typeName]?

def contains (r : Registry) (typeName : String) : Bool :=
  r.definitions.contains typeName

/-- The types in ascending order. -/
def typeNames (r : Registry) : List String :=
  r.definitions.keys

def size (r : Registry) : Nat :=
  r.definitions.size

def isEmpty (r : Registry) : Bool :=
  r.definitions.isEmpty

end Registry

end BlockEditor
