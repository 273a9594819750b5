import BlockEditor.CopyRules
import BlockEditor.Scalar

/-!
# Editor configuration

The radii of the search for a connection, the margin that keeps a held one, the grid, and the
policy on copies and placeholders.
-/

namespace BlockEditor

structure Grid (α : Type) where
  spacing : α
  /-- Whether blocks dropped on the canvas are moved to the grid. -/
  snap : Bool
deriving DecidableEq, Repr

structure EditorConfig (α : Type) where
  /-- Search radius while nothing is held. -/
  snapRadius : α
  /-- Search radius while a candidate is held. -/
  connectingRadius : α
  /-- How much nearer a candidate has to be to take the place of the one held. -/
  holdPreference : α
  grid : Option (Grid α)
  readOnly : Bool
  /-- How far a block is pushed aside that has lost its place. -/
  bumpDelta : α
  copyOnDrag : CopyRules
  /-- Types of placeholders that may be dragged out; no list allows all. -/
  draggablePlaceholders : Option (List String)
  /-- How many events are kept for a host that does not fetch them. -/
  eventCapacity : Nat
deriving DecidableEq, Repr

/-- What makes a configuration unusable. -/
inductive ConfigFault (α : Type) where
  | radii (snap connecting : α)
  | connectingTooWide (connecting snap : α)
  | preference (given : α)
  | noEvents
  | gridSpacing (given : α)
deriving DecidableEq, Repr

/-- How many events are kept unless the configuration says otherwise. -/
def defaultEventCapacity : Nat := 4096

namespace EditorConfig

variable {α : Type} [Scalar α]

def standard : EditorConfig α where
  snapRadius := Scalar.ofNat 28
  connectingRadius := Scalar.ofNat 24
  holdPreference := Scalar.ofNat 8
  grid := none
  readOnly := false
  bumpDelta := Scalar.ofNat 25
  copyOnDrag := CopyRules.empty
  draggablePlaceholders := none
  eventCapacity := defaultEventCapacity

/-- The first fault, if there is one. -/
def fault? (c : EditorConfig α) : Option (ConfigFault α) :=
  if !Scalar.isPositive c.snapRadius || !Scalar.isPositive c.connectingRadius then
    some (.radii c.snapRadius c.connectingRadius)
  else if Scalar.lt c.snapRadius c.connectingRadius then
    some (.connectingTooWide c.connectingRadius c.snapRadius)
  else if !Scalar.isFinite c.holdPreference || Scalar.lt c.holdPreference 0 then
    some (.preference c.holdPreference)
  else if c.eventCapacity = 0 then
    some .noEvents
  else
    match c.grid with
    | some grid =>
      if grid.snap && !Scalar.isPositive grid.spacing then some (.gridSpacing grid.spacing)
      else none
    | none => none

omit [Scalar α] in
def allowsDragOf (c : EditorConfig α) (typeName : String) : Bool :=
  match c.draggablePlaceholders with
  | some allowed => allowed.contains typeName
  | none => true

end EditorConfig

namespace ConfigFault

variable {α : Type}

/-- The fault in words; `text` writes a scalar. -/
def message (text : α → String) : ConfigFault α → String
  | radii snap connecting =>
    "snap radii must be positive and finite (snap=" ++ text snap ++ ", connecting="
      ++ text connecting ++ ")"
  | connectingTooWide connecting snap =>
    "connecting_snap_radius " ++ text connecting ++ " exceeds snap_radius " ++ text snap
  | preference given => "current_connection_preference must be >= 0 (got " ++ text given ++ ")"
  | noEvents => "event_log_capacity must be at least 1"
  | gridSpacing given =>
    "grid spacing must be positive when snapping (got " ++ text given ++ ")"

end ConfigFault

end BlockEditor
