/-!
# Queues

First in, first out. A queue is held as two lists, one from each end, so that no operation walks
over all of it each time; `Queue.toList` is what it holds, oldest first.
-/

namespace BlockEditor

structure Queue (α : Type) where
  /-- The older items, oldest first. -/
  front : List α
  /-- The newer items, latest first. -/
  back : List α
  size : Nat
  size_eq : size = front.length + back.length := by simp
deriving Repr

namespace Queue

variable {α : Type}

def empty : Queue α where
  front := []
  back := []
  size := 0
  size_eq := rfl

instance : Inhabited (Queue α) := ⟨empty⟩

/-- The items, oldest first. -/
def toList (q : Queue α) : List α :=
  q.front ++ q.back.reverse

/-- Add an item as the latest one. -/
def push (q : Queue α) (item : α) : Queue α where
  front := q.front
  back := item :: q.back
  size := q.size + 1
  size_eq := by simp [q.size_eq, Nat.add_assoc]

/-- Without the oldest item. -/
def pop (q : Queue α) : Queue α where
  front := if q.front.isEmpty then q.back.reverse.drop 1 else q.front.drop 1
  back := if q.front.isEmpty then [] else q.back
  size := q.size - 1
  size_eq := by
    have h := q.size_eq
    cases hf : q.front <;> simp_all

@[simp]
theorem toList_empty : (empty : Queue α).toList = [] :=
  rfl

@[simp]
theorem toList_push (q : Queue α) (item : α) : (q.push item).toList = q.toList ++ [item] := by
  simp [toList, push]

@[simp]
theorem toList_pop (q : Queue α) : q.pop.toList = q.toList.drop 1 := by
  cases hf : q.front <;> simp [toList, pop, hf]

theorem size_eq_length (q : Queue α) : q.size = q.toList.length := by
  simp [toList, q.size_eq]

end Queue

end BlockEditor
