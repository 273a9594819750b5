import BlockEditor.Event
import BlockEditor.Queue

/-!
# The event log

The latest events, up to a capacity, for a host to fetch. Events fired while a group is open
belong to it, so that a whole gesture can be undone as one.
-/

namespace BlockEditor

structure EventLog (α : Type) where
  events : Queue (Recorded GroupId α)
  group : Option GroupId
  capacity : Nat
  /-- How many events were pushed out since the log was last emptied. -/
  dropped : Nat
  /-- How many groups have been opened. -/
  opened : Nat
deriving Repr

namespace EventLog

variable {α : Type}

/-- An empty log. It keeps at least one event. -/
def withCapacity (capacity : Nat) : EventLog α where
  events := Queue.empty
  group := none
  capacity := max capacity 1
  dropped := 0
  opened := 0

def size (log : EventLog α) : Nat :=
  log.events.size

def openGroup (log : EventLog α) : EventLog α :=
  { log with group := some ⟨log.opened⟩, opened := log.opened + 1 }

def closeGroup (log : EventLog α) : EventLog α :=
  { log with group := none }

/-- Open a group of its own, in place of one that is open, or close the one that is open. -/
def setGroup (log : EventLog α) (on : Bool) : EventLog α :=
  if on then log.openGroup else log.closeGroup

/-- Record an event. A full log lets go of its oldest one. -/
def fire (log : EventLog α) (event : Event α) : EventLog α :=
  let recorded := ⟨log.group, event⟩
  if log.size = log.capacity then
    { log with events := log.events.pop.push recorded, dropped := log.dropped + 1 }
  else
    { log with events := log.events.push recorded }

/-- Hand out the events and forget them. -/
def drain (log : EventLog α) : List (Recorded GroupId α) × EventLog α :=
  (log.events.toList, { log with events := Queue.empty, dropped := 0 })

/-- The kept events of a group. -/
def inGroup (log : EventLog α) (g : GroupId) : List (Event α) :=
  (log.events.toList.filter (·.group = some g)).map (·.event)

/-- The group of the latest kept event that has one. -/
def lastGroup? (log : EventLog α) : Option GroupId :=
  log.events.toList.reverse.findSome? (·.group)

end EventLog

end BlockEditor
