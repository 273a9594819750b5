import BlockEditor.Assoc
import BlockEditor.Json.Basic

/-!
# Snapshots

A snapshot holds what is needed to build a block again with everything below it. It is what an
input keeps as the template of its placeholder and what a copy is made from; positions and ids
are not part of it.
-/

namespace BlockEditor

/-- Contents of an input: the block plugged into it, and the placeholder it falls back on. -/
structure InputSnapshot (σ : Type) where
  block : Option σ
  template : Option σ
deriving Repr, Inhabited

/-- Fields and inputs are listed by ascending name. -/
structure Snapshot where
  typeName : String
  placeholder : Bool
  fields : List (String × String)
  extra : Option Json
  inputs : List (String × InputSnapshot Snapshot)
  next : Option Snapshot
  copyOnDrag : Option Bool
deriving Inhabited

namespace Snapshot

/-- A block of the given type with nothing set. -/
def ofType (typeName : String) : Snapshot where
  typeName := typeName
  placeholder := false
  fields := []
  extra := none
  inputs := []
  next := none
  copyOnDrag := none

def placeholderOfType (typeName : String) : Snapshot :=
  { ofType typeName with placeholder := true }

def withField (s : Snapshot) (name value : String) : Snapshot :=
  { s with fields := Assoc.insert name value s.fields }

def withExtra (s : Snapshot) (extra : Json) : Snapshot :=
  { s with extra := some extra }

def withInput (s : Snapshot) (name : String) (input : InputSnapshot Snapshot) : Snapshot :=
  { s with inputs := Assoc.insert name input s.inputs }

end Snapshot

end BlockEditor
