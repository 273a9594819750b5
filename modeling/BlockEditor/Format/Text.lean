import BlockEditor.Format.Config
import BlockEditor.Format.Snapshot
import BlockEditor.Json.Reader
import BlockEditor.Text.Blank

/-!
# What the host sends as text
-/

namespace BlockEditor

/-- A control by its name or its sign, in any case and between blanks. What is none of them is
handed back as it was understood. -/
def Control.ofText (text : String) : Except String Control :=
  let name := String.ofList ((Text.trim text.toList).map Text.lowerAscii)
  if name = "add" || name = "+" then .ok .add
  else if name = "remove" || name = "-" then .ok .remove
  else .error name

/-- Why a text is not a control. -/
def Control.unknown (name : String) : String :=
  "unknown control action '" ++ name ++ "'"

/-- A configuration; a blank text is the standard one. -/
def EditorConfig.ofText? (text : String) : Option (EditorConfig Float) :=
  if (Text.trim text.toList).isEmpty then some standard
  else Json.readText? ConfigRecord.outline (.record .config) text >>= ofJson?

def Snapshot.ofText? (text : String) : Option Snapshot :=
  Json.readText? SnapshotRecord.outline (.record .snapshot) text >>= ofJson?

end BlockEditor
