import BlockEditor.Event.Log

/-!
# What a log retains

A host fires events, opens and closes groups and empties the log, in any order. What the log then
holds follows from these calls alone: the latest events since it was last emptied, each with the
group that was open when it was fired.

Calls are listed latest first, so that what was called before a call is the rest of the list.
-/

namespace BlockEditor

/-- What can be done with a log. -/
inductive LogCall (α : Type) where
  | fire (event : Event α)
  | setGroup (on : Bool)
  | drain

namespace LogCall

variable {α : Type}

/-- How many groups were opened. -/
def openings : List (LogCall α) → Nat
  | [] => 0
  | .setGroup true :: past => openings past + 1
  | _ :: past => openings past

/-- The group that is open, as the latest call that set it has left it. Each opening has a group of
its own. -/
def openGroup? : List (LogCall α) → Option GroupId
  | [] => none
  | .setGroup true :: past => some ⟨openings past⟩
  | .setGroup false :: _ => none
  | .fire _ :: past => openGroup? past
  | .drain :: past => openGroup? past

/-- The events since the log was last emptied, latest first, each with the group that was open
then. -/
def unread : List (LogCall α) → List (Recorded GroupId α)
  | [] => []
  | .fire event :: past => ⟨openGroup? past, event⟩ :: unread past
  | .setGroup _ :: past => unread past
  | .drain :: _ => []

variable {past : List (LogCall α)} {g : GroupId}

theorem number_lt_of_openGroup? (h : openGroup? past = some g) : g.number < openings past := by
  induction past with
  | nil => cases h
  | cons call past ih =>
    cases call with
    | fire event => exact ih h
    | drain => exact ih h
    | setGroup on =>
      cases on with
      | false => cases h
      | true =>
        cases h
        exact Nat.lt_succ_self _

theorem openings_le_cons (call : LogCall α) (past : List (LogCall α)) :
    openings past ≤ openings (call :: past) := by
  cases call with
  | fire event => exact Nat.le_refl _
  | drain => exact Nat.le_refl _
  | setGroup on =>
    cases on with
    | false => exact Nat.le_refl _
    | true => exact Nat.le_succ _

theorem number_lt_of_mem_unread {r : Recorded GroupId α} (hr : r ∈ unread past)
    (hg : r.group = some g) : g.number < openings past := by
  induction past with
  | nil => cases hr
  | cons call past ih =>
    have hle := openings_le_cons call past
    cases call with
    | drain => cases hr
    | setGroup on =>
      have hlt := ih hr
      omega
    | fire event =>
      rcases List.mem_cons.mp hr with rfl | hr
      · exact number_lt_of_openGroup? hg
      · have hlt := ih hr
        omega

end LogCall

namespace EventLog

open LogCall

variable {α : Type} {log : EventLog α} {past : List (LogCall α)} {room : Nat}

def call (log : EventLog α) : LogCall α → EventLog α
  | .fire event => log.fire event
  | .setGroup on => log.setGroup on
  | .drain => log.drain.2

/-- A new log of a capacity, after calls. -/
def afterCalls (capacity : Nat) : List (LogCall α) → EventLog α
  | [] => withCapacity capacity
  | call :: past => (afterCalls capacity past).call call

/-- The log holds the latest unread events, as many as it has room for, and counts the others. -/
structure Retains (log : EventLog α) (room : Nat) (past : List (LogCall α)) : Prop where
  events : log.events.toList = ((unread past).take room).reverse
  dropped : log.dropped = (unread past).length - room
  capacity : log.capacity = room
  group : log.group = openGroup? past
  opened : log.opened = openings past

namespace Retains

theorem size (h : log.Retains room past) : log.size = min room (unread past).length := by
  unfold EventLog.size
  rw [Queue.size_eq_length, h.events, List.length_reverse, List.length_take]

/-- As long as there is room, nothing is let go. -/
theorem fire_roomy (h : log.Retains room past) (hroom : (unread past).length < room)
    (event : Event α) : (log.fire event).Retains room (.fire event :: past) := by
  have hfree : log.size ≠ log.capacity := by
    rw [h.size, h.capacity]
    omega
  unfold fire
  rw [if_neg hfree]
  refine ⟨?_, ?_, h.capacity, h.group, h.opened⟩
  · have hall : (unread past).take room = unread past := List.take_of_length_le (by omega)
    have hnow : (unread (.fire event :: past)).take room = unread (.fire event :: past) :=
      List.take_of_length_le (Nat.succ_le_of_lt hroom)
    rw [hnow, Queue.toList_push, h.events, hall, h.group]
    exact (List.reverse_cons ..).symm
  · have hnone := h.dropped
    have hlength : (unread (.fire event :: past)).length = (unread past).length + 1 := rfl
    dsimp only
    omega

/-- A full log lets go of its oldest event. -/
theorem fire_full (h : log.Retains room past) (hroom : 0 < room)
    (hfull : room ≤ (unread past).length) (event : Event α) :
    (log.fire event).Retains room (.fire event :: past) := by
  have hnone : log.size = log.capacity := by
    rw [h.size, h.capacity]
    omega
  unfold fire
  rw [if_pos hnone]
  refine ⟨?_, ?_, h.capacity, h.group, h.opened⟩
  · obtain ⟨n, rfl⟩ : ∃ n, room = n + 1 := ⟨room - 1, by omega⟩
    have holdest : ((unread past).take (n + 1)).reverse.drop 1 =
        ((unread past).take n).reverse := by
      rw [List.drop_one, List.tail_reverse, List.dropLast_eq_take, List.take_take, List.length_take]
      congr 2
      omega
    rw [Queue.toList_push, Queue.toList_pop, h.events, holdest, h.group]
    exact (List.reverse_cons ..).symm
  · have hcount := h.dropped
    have hlength : (unread (.fire event :: past)).length = (unread past).length + 1 := rfl
    dsimp only
    omega

theorem fire (h : log.Retains room past) (hroom : 0 < room) (event : Event α) :
    (log.fire event).Retains room (.fire event :: past) := by
  by_cases hfull : room ≤ (unread past).length
  · exact h.fire_full hroom hfull event
  · exact h.fire_roomy (by omega) event

theorem setGroup (h : log.Retains room past) (on : Bool) :
    (log.setGroup on).Retains room (.setGroup on :: past) := by
  cases on with
  | false => exact ⟨h.events, h.dropped, h.capacity, rfl, h.opened⟩
  | true =>
    have hopened := h.opened
    refine ⟨h.events, h.dropped, h.capacity, ?_, congrArg (· + 1) hopened⟩
    exact congrArg (fun n => some (GroupId.mk n)) hopened

theorem drain (h : log.Retains room past) : log.drain.2.Retains room (.drain :: past) where
  events := by simp [EventLog.drain, unread]
  dropped := by simp [EventLog.drain, unread]
  capacity := h.capacity
  group := h.group
  opened := h.opened

theorem call (h : log.Retains room past) (hroom : 0 < room) (c : LogCall α) :
    (log.call c).Retains room (c :: past) := by
  cases c with
  | fire event => exact h.fire hroom event
  | setGroup on => exact h.setGroup on
  | drain => exact h.drain

end Retains

theorem withCapacity_retains (capacity : Nat) :
    (withCapacity capacity : EventLog α).Retains (max capacity 1) [] where
  events := by simp [withCapacity, unread]
  dropped := by simp [withCapacity, unread]
  capacity := rfl
  group := rfl
  opened := rfl

theorem afterCalls_keeps (capacity : Nat) (past : List (LogCall α)) :
    (afterCalls capacity past).Retains (max capacity 1) past := by
  induction past with
  | nil => exact withCapacity_retains capacity
  | cons c past ih => exact ih.call (by omega) c

/-- Of the `k` events since it was last emptied, a log holds the latest ones, as many as it has room
for, in the order in which they were fired, and it counts the others. It hands out what it holds.
The events of a group are those that it holds of the group, the last group is the one of the latest
event that has one, and a group that is opened next has none yet. -/
theorem afterCalls_retains (capacity : Nat) (past : List (LogCall α)) :
    let log := afterCalls capacity past
    let k := (unread past).length
    let held := min k (max capacity 1)
    let latest := (unread past).take held
    log.size = held ∧
    log.events.toList = latest.reverse ∧
    log.dropped = k - held ∧
    log.drain.1 = latest.reverse ∧ log.drain.2.events.toList = [] ∧ log.drain.2.dropped = 0 ∧
    (∀ g, log.inGroup g = (latest.reverse.filter (·.group = some g)).map (·.event)) ∧
    log.lastGroup? = latest.findSome? (·.group) ∧
    log.group = openGroup? past ∧
    ∀ r ∈ latest, r.group ≠ (log.setGroup true).group := by
  intro log k held latest
  have h : log.Retains (max capacity 1) past := afterCalls_keeps capacity past
  have hsize : log.size = held := by
    rw [h.size, Nat.min_comm]
  have hlatest : latest = (unread past).take (max capacity 1) := by
    rw [List.take_eq_take_min (i := max capacity 1), Nat.min_comm]
  have hevents : log.events.toList = latest.reverse := by
    rw [hlatest]
    exact h.events
  have hdropped : log.dropped = k - held := by
    have hcount : log.dropped = k - max capacity 1 := h.dropped
    omega
  refine ⟨hsize, hevents, hdropped, hevents, rfl, rfl, fun g => ?_, ?_, h.group, ?_⟩
  · unfold inGroup
    rw [hevents]
  · unfold lastGroup?
    rw [hevents, List.reverse_reverse]
  · intro r hr hgroup
    have hlt := number_lt_of_mem_unread (List.mem_of_mem_take hr) hgroup
    rw [h.opened] at hlt
    exact Nat.lt_irrefl _ hlt

/-- A log for two events has let go of the first of three. The second one was fired in a group. -/
example : (afterCalls 2 [.fire (.delete ⟨3⟩), .setGroup false, .fire (.delete ⟨2⟩), .setGroup true,
    .fire (.delete ⟨1⟩)] : EventLog Int).events.toList =
      [⟨some ⟨0⟩, .delete ⟨2⟩⟩, ⟨none, .delete ⟨3⟩⟩] := by
  decide

end EventLog

end BlockEditor
