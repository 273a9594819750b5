import BlockEditor.Assoc

/-!
# JSON values

Numbers keep the distinction of the notation: one written without a fraction or an exponent is
an integer, any other is a double. Objects keep their members in order and may name a member
twice; `Json.canonical` brings them into one form.
-/

namespace BlockEditor

inductive Json.Number where
  | int (n : Int)
  | float (x : Float)
deriving DecidableEq, Repr

inductive Json where
  | null
  | bool (b : Bool)
  | num (n : Json.Number)
  | str (s : String)
  | arr (items : List Json)
  | obj (members : List (String × Json))
deriving Repr, Inhabited

namespace Json

def int (n : Int) : Json :=
  .num (.int n)

def nat (n : Nat) : Json :=
  .int n

/-- Notation has no infinities and nothing that is not a number; both become `null`. -/
def float (x : Float) : Json :=
  if x.isFinite then .num (.float x) else .null

def list {α : Type} (item : α → Json) (items : List α) : Json :=
  .arr (items.map item)

/-- `null` stands for no value. -/
def optional {α : Type} (value : α → Json) : Option α → Json
  | some x => value x
  | none => .null

/-- A value that carries the name of its constructor. -/
def tagged (tag name : String) (members : List (String × Json)) : Json :=
  .obj ((tag, .str name) :: members)

/-- An object without the members that have no value. -/
def record (members : List (String × Option Json)) : Json :=
  .obj (members.filterMap fun (name, value) => value.map fun v => (name, v))

def isNull : Json → Bool
  | .null => true
  | _ => false

/-- Value of the named member, the last one if there are several. -/
def member? (name : String) : Json → Option Json
  | .obj members => members.reverse.lookup name
  | _ => none

mutual

/-- The same value with the members of every object in ascending order of their names; of several
members of one name the last one is left. -/
def canonical : Json → Json
  | .arr items => .arr (canonicalItems items)
  | .obj members => .obj (Assoc.ofList (canonicalMembers members))
  | .null => .null
  | .bool b => .bool b
  | .num n => .num n
  | .str s => .str s

def canonicalItems : List Json → List Json
  | [] => []
  | item :: rest => canonical item :: canonicalItems rest

def canonicalMembers : List (String × Json) → List (String × Json)
  | [] => []
  | (name, value) :: rest => (name, canonical value) :: canonicalMembers rest

end

mutual

/-- How many containers lie inside each other at most. -/
def nesting : Json → Nat
  | .arr items => nestingOfItems items + 1
  | .obj members => nestingOfMembers members + 1
  | .null | .bool _ | .num _ | .str _ => 0

def nestingOfItems : List Json → Nat
  | [] => 0
  | item :: rest => max (nesting item) (nestingOfItems rest)

def nestingOfMembers : List (String × Json) → Nat
  | [] => 0
  | (_, value) :: rest => max (nesting value) (nestingOfMembers rest)

end

end Json

end BlockEditor
