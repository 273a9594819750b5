/-!
# Outlines of records

An outline says which members of a record are read. The others are only passed over when the text
is read, and so may hold what could not be read.
-/

namespace BlockEditor.Json

/-- What a value is read for. Records are of the kinds `κ`. -/
inductive Want (κ : Type) where
  /-- All of it, whatever it is. -/
  | whole
  /-- The fields of a record. -/
  | record (kind : κ)
  /-- An array with items of one sort. -/
  | list (item : Want κ)
  /-- An object with members of one sort and of any name. -/
  | table (value : Want κ)
deriving Repr

/-- The fields of each kind of record, in order. -/
abbrev Outline (κ : Type) := κ → List (String × Want κ)

namespace Outline

/-- The names of the fields of a record, in order. -/
def names {κ : Type} (outline : Outline κ) (kind : κ) : List String :=
  (outline kind).map (·.1)

/-- There are no records. -/
def none : Outline Empty :=
  nofun

end Outline

namespace Want

variable {κ : Type}

/-- What the item at a place of an array is read for. -/
def item (outline : Outline κ) : Want κ → Nat → Want κ
  | list item, _ => item
  | record kind, place => ((outline kind)[place]?.map (·.2)).getD whole
  | _, _ => whole

/-- What a member of an object is read for; nothing if it is passed over. -/
def member? (outline : Outline κ) : Want κ → String → Option (Want κ)
  | table value, _ => some value
  | record kind, name => (outline kind).lookup name
  | _, _ => some whole

end Want

end BlockEditor.Json
