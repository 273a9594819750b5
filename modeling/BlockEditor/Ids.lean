import Std.Data.ExtTreeMap

/-!
# Identifiers

Blocks and connections are numbered by 32-bit words in the order in which they are made. The
supply counts what it has handed out and never looks back, so a number returns only after the
words have run out.
-/

namespace BlockEditor

structure BlockId where
  index : UInt32
deriving DecidableEq, Repr, Inhabited

structure ConnectionId where
  index : UInt32
deriving DecidableEq, Repr, Inhabited

namespace BlockId

instance : Ord BlockId := ⟨compareOn index⟩

instance : Std.TransOrd BlockId :=
  inferInstanceAs (Std.TransCmp (compareOn index))

instance : Std.LawfulEqOrd BlockId where
  eq_of_compare {a b} h := by
    cases a
    cases b
    exact congrArg BlockId.mk (Std.LawfulEqOrd.eq_of_compare (α := UInt32) h)

instance : ToString BlockId := ⟨fun id => "block#" ++ toString id.index.toNat⟩

end BlockId

namespace ConnectionId

instance : Ord ConnectionId := ⟨compareOn index⟩

instance : Std.TransOrd ConnectionId :=
  inferInstanceAs (Std.TransCmp (compareOn index))

instance : Std.LawfulEqOrd ConnectionId where
  eq_of_compare {a b} h := by
    cases a
    cases b
    exact congrArg ConnectionId.mk (Std.LawfulEqOrd.eq_of_compare h)

instance : ToString ConnectionId := ⟨fun id => "conn#" ++ toString id.index.toNat⟩

end ConnectionId

/-- How many ids of each kind have been handed out. -/
structure IdSupply where
  blocks : Nat
  connections : Nat
deriving DecidableEq, Repr, Inhabited

namespace IdSupply

def fresh : IdSupply := ⟨0, 0⟩

def nextBlock (s : IdSupply) : BlockId × IdSupply :=
  (⟨UInt32.ofNat s.blocks⟩, { s with blocks := s.blocks + 1 })

def nextConnection (s : IdSupply) : ConnectionId × IdSupply :=
  (⟨UInt32.ofNat s.connections⟩, { s with connections := s.connections + 1 })

end IdSupply

end BlockEditor
