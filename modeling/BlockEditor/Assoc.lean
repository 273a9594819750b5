import Std.Data.ExtTreeMap

/-!
# Association lists in key order

Names with values, in ascending order of the names and each name once. Look-up is
`List.lookup`.
-/

namespace BlockEditor.Assoc

variable {β : Type}

/-- Set the value of a name. -/
def insert (name : String) (value : β) : List (String × β) → List (String × β)
  | [] => [(name, value)]
  | (key, old) :: rest =>
    if name = key then (name, value) :: rest
    else if name < key then (name, value) :: (key, old) :: rest
    else (key, old) :: insert name value rest

/-- The entries in order; of several with one name the last counts. -/
def ofList (entries : List (String × β)) : List (String × β) :=
  (Std.ExtTreeMap.ofList entries).toList

/-- In ascending order, hence without repetition. -/
def Ordered (entries : List (String × β)) : Prop :=
  entries.Pairwise fun a b => a.1 < b.1

instance (entries : List (String × β)) : Decidable (Ordered entries) :=
  inferInstanceAs (Decidable (entries.Pairwise _))

end BlockEditor.Assoc
