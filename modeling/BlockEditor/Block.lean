import BlockEditor.Container
import BlockEditor.Geometry
import BlockEditor.Snapshot

/-!
# Blocks and their connections

A block has inputs, and connections by which it is joined to other blocks. A connection belongs
to the upper side of a link if it is an input's value or a next statement: these are the sockets.
The lower side is a plug: an output value or a previous statement.

A placeholder is a block that fills an input until a real one takes its place.
-/

namespace BlockEditor

inductive ConnectionKind where
  | inputValue
  | outputValue
  | nextStatement
  | previousStatement
deriving DecidableEq, Repr, Inhabited

namespace ConnectionKind

/-- The kind that this one is joined to. -/
def opposite : ConnectionKind → ConnectionKind
  | inputValue => outputValue
  | outputValue => inputValue
  | nextStatement => previousStatement
  | previousStatement => nextStatement

/-- The upper side of a link. -/
def isSocket : ConnectionKind → Bool
  | inputValue | nextStatement => true
  | outputValue | previousStatement => false

/-- The lower side of a link, with which a dragged block leads. -/
def isPlug : ConnectionKind → Bool
  | outputValue | previousStatement => true
  | inputValue | nextStatement => false

end ConnectionKind

/-- Two ends fit if one of them accepts anything or they have an accepted name in common. -/
def checksFit : Option (List String) → Option (List String) → Bool
  | some a, some b => a.any b.contains
  | _, _ => true

structure Connection (α : Type) where
  block : BlockId
  kind : ConnectionKind
  /-- Where the end lies, seen from the block's position. -/
  offset : Point α
  /-- Names of accepted types; no list accepts anything. -/
  check : Option (List String)
  /-- The other end of the link. -/
  target : Option ConnectionId
  /-- The placeholder that fills the end whenever it becomes empty. -/
  template : Option Snapshot

namespace Connection

variable {α : Type}

def isConnected (c : Connection α) : Bool :=
  c.target.isSome

def fits (c d : Connection α) : Bool :=
  checksFit c.check d.check

end Connection

inductive Control where
  | add
  | remove
deriving DecidableEq, Repr, Inhabited

def Control.name : Control → String
  | .add => "add"
  | .remove => "remove"

instance : ToString Control := ⟨Control.name⟩

inductive Field where
  | label (text : String)
  | text (name value : String)
  | action (control : Control)
deriving DecidableEq, Repr, Inhabited

namespace Field

def label? : Field → Option String
  | label s => some s
  | _ => none

def action? : Field → Option Control
  | action control => some control
  | _ => none

/-- Name and value of a text field. -/
def entry? : Field → Option (String × String)
  | text name value => some (name, value)
  | _ => none

/-- Whether this is the text field of the given name. -/
def isNamed (name : String) : Field → Bool
  | text key _ => key = name
  | _ => false

/-- The same field with another text. -/
def setText (value : String) : Field → Field
  | text name _ => text name value
  | field => field

end Field

inductive InputKind where
  | value
  | statement
  | dummy
deriving DecidableEq, Repr, Inhabited

/-- The kind of connection that an input of this kind carries. -/
def InputKind.connection? : InputKind → Option ConnectionKind
  | value => some .inputValue
  | statement => some .nextStatement
  | dummy => none

structure Input where
  name : String
  kind : InputKind
  fields : List Field
  connection : Option ConnectionId
deriving DecidableEq, Repr, Inhabited

namespace Input

def labels (i : Input) : List String :=
  i.fields.filterMap Field.label?

def actions (i : Input) : List Control :=
  i.fields.filterMap Field.action?

end Input

structure Block (α : Type) where
  typeName : String
  container : Option ContainerKind
  /-- How many units a container has; 0 for other blocks. -/
  units : Nat
  inputs : List Input
  output : Option ConnectionId
  previous : Option ConnectionId
  next : Option ConnectionId
  placeholder : Bool
  movable : Bool
  inFlyout : Bool
  dragging : Bool
  position : Point α
  /-- Overrides the rules on leaving a copy behind. -/
  copyOnDrag : Option Bool
deriving DecidableEq, Repr

namespace Block

variable {α : Type}

def input? (b : Block α) (name : String) : Option Input :=
  b.inputs.find? (·.name = name)

def indexOfInput? (b : Block α) (name : String) : Option Nat :=
  b.inputs.findIdx? (·.name = name)

def fields (b : Block α) : List Field :=
  b.inputs.flatMap (·.fields)

def fieldText? (b : Block α) (name : String) : Option String :=
  (b.fields.filterMap Field.entry?).lookup name

/-- The ends by which the block hangs on another one. -/
def plugs (b : Block α) : List ConnectionId :=
  b.output.toList ++ b.previous.toList

/-- The ends other blocks hang on: the inputs from top to bottom, then the next statement. -/
def sockets (b : Block α) : List ConnectionId :=
  b.inputs.filterMap (·.connection) ++ b.next.toList

/-- All ends in the order in which a drag considers them. -/
def connections (b : Block α) : List ConnectionId :=
  b.output.toList ++ b.previous.toList ++ b.next.toList ++ b.inputs.filterMap (·.connection)

def isContainer (b : Block α) : Bool :=
  b.container.isSome

def isCall (b : Block α) : Bool :=
  b.container = some .call

end Block

/-- Set the first text field of the given name; `none` if there is none. -/
def setFieldIn (name value : String) : List Field → Option (List Field)
  | [] => none
  | field :: rest =>
    if field.isNamed name then some (field.setText value :: rest)
    else (setFieldIn name value rest).map (field :: ·)

/-- Set the first text field of the given name among all inputs. -/
def setFieldAmong (name value : String) : List Input → Option (List Input)
  | [] => none
  | input :: rest =>
    match setFieldIn name value input.fields with
    | some fields => some ({ input with fields } :: rest)
    | none => (setFieldAmong name value rest).map (input :: ·)

end BlockEditor
