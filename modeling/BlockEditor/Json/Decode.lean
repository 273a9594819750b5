import BlockEditor.Json.Basic

/-!
# Reading values out of JSON

A record is written as an object or, by position, as an array of its fields; an array may stop
early where the remaining fields have defaults. Members that no field is named after are passed
over, and a field named twice is refused. A tagged value carries its constructor under a tag, or
as the first item of an array.

A reader answers `none` to a value of the wrong shape.
-/

namespace BlockEditor.Json

variable {α : Type}

def bool? : Json → Option Bool
  | .bool b => some b
  | _ => none

def str? : Json → Option String
  | .str s => some s
  | _ => none

/-- A natural number below `bound`, written as an integer. -/
def natBelow? (bound : Nat) : Json → Option Nat
  | .num (.int n) => if 0 ≤ n ∧ n.toNat < bound then some n.toNat else none
  | _ => none

def word32? (j : Json) : Option UInt32 :=
  (natBelow? UInt32.size j).map UInt32.ofNat

def count? : Json → Option Nat :=
  natBelow? UInt64.size

def float? : Json → Option Float
  | .num (.int n) => some (Float.ofInt n)
  | .num (.float x) => some x
  | _ => none

def list? (item : Json → Option α) : Json → Option (List α)
  | .arr items => items.mapM item
  | _ => none

/-- `null` stands for no value. -/
def optional? (value : Json → Option α) : Json → Option (Option α)
  | .null => some none
  | j => (value j).map some

/-- A word out of a fixed list, alone or as the name of an object's only member, which says
nothing. -/
def wordWith? (saysNothing : Json → Bool) : Json → Option String
  | .str s => some s
  | .obj [(s, j)] => if saysNothing j then some s else none
  | _ => none

/-- A word; nothing is written as `null`. -/
def word? : Json → Option String :=
  wordWith? isNull

/-- A word inside of a tagged value, where nothing is also written as an empty object. -/
def innerWord? : Json → Option String :=
  wordWith? fun
    | .null | .obj [] => true
    | _ => false

/-- What a record has for each of its fields, by the field's place. -/
abbrev Fields := Nat → Option Json

def unique? (name : String) (members : List (String × Json)) : Option (Option Json) :=
  match members.filter (·.1 == name) with
  | [] => some none
  | [(_, value)] => some (some value)
  | _ => none

/-- The fields of a record whose fields have the given names, in this order. -/
def fields? (names : List String) : Json → Option Fields
  | .arr items => if items.length ≤ names.length then some fun i => items[i]? else none
  | .obj members => do
    let values ← names.mapM (unique? · members)
    return fun i => (values[i]?).join
  | _ => none

/-- A field that has to be there. -/
def Fields.required (fields : Fields) (i : Nat) (value : Json → Option α) : Option α :=
  fields i >>= value

/-- A field that may be left out but not be `null`. -/
def Fields.orElse (fields : Fields) (i : Nat) (default : α) (value : Json → Option α) : Option α :=
  match fields i with
  | none => some default
  | some j => value j

/-- A field that may be left out or be `null`. -/
def Fields.optional (fields : Fields) (i : Nat) (value : Json → Option α) : Option (Option α) :=
  fields.orElse i none (optional? value)

/-- The constructor of a tagged value, and the value without its tag. -/
def tagged? (tag : String) : Json → Option (String × Json)
  | .arr (.str name :: rest) => some (name, .arr rest)
  | .obj members => do
    let name ← (← unique? tag members) >>= str?
    return (name, .obj (members.filter (·.1 != tag)))
  | _ => none

/-- What is left of a tagged value whose constructor has no fields: an array has to be at its end,
and members of an object are passed over. -/
def noFields? : Json → Option Unit
  | .arr [] => some ()
  | .obj _ => some ()
  | _ => none

end BlockEditor.Json
