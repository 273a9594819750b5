import BlockEditor.Block
import BlockEditor.Drag.Session
import BlockEditor.Json.Decode

/-!
# Words of the notation

The words that stand for kinds, controls and phases.
-/

namespace BlockEditor

namespace ConnectionKind

def word : ConnectionKind → String
  | inputValue => "input_value"
  | outputValue => "output_value"
  | nextStatement => "next_statement"
  | previousStatement => "previous_statement"

def ofWord? (s : String) : Option ConnectionKind :=
  [inputValue, outputValue, nextStatement, previousStatement].find? (·.word = s)

def ofJson? (j : Json) : Option ConnectionKind :=
  j.word? >>= ofWord?

end ConnectionKind

namespace Control

def ofWord? (s : String) : Option Control :=
  [add, remove].find? (·.name = s)

def toJson (c : Control) : Json :=
  .str c.name

def ofJson? (j : Json) : Option Control :=
  j.word? >>= ofWord?

/-- Read a control inside of a tagged value. -/
def ofInnerJson? (j : Json) : Option Control :=
  j.innerWord? >>= ofWord?

end Control

namespace InputKind

def word : InputKind → String
  | value => "value"
  | statement => "statement"
  | dummy => "dummy"

def ofWord? (s : String) : Option InputKind :=
  [value, statement, dummy].find? (·.word = s)

def toJson (k : InputKind) : Json :=
  .str k.word

def ofJson? (j : Json) : Option InputKind :=
  j.word? >>= ofWord?

end InputKind

namespace DragPhase

def word : DragPhase → String
  | idle => "idle"
  | dragging => "dragging"
  | applying => "applying"
  | reverting => "reverting"

def ofWord? (s : String) : Option DragPhase :=
  [idle, dragging, applying, reverting].find? (·.word = s)

def toJson (p : DragPhase) : Json :=
  .str p.word

def ofJson? (j : Json) : Option DragPhase :=
  j.word? >>= ofWord?

end DragPhase

end BlockEditor
