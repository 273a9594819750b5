import BlockEditor.Json.Decode
import BlockEditor.Json.Outline
import BlockEditor.Snapshot

/-!
# Notation of snapshots

What has its usual value is not written: a real block does not say so, and empty tables, missing
shapes and missing decisions are left out. A reader puts them back.
-/

namespace BlockEditor

/-- The records that snapshots are written with. -/
inductive SnapshotRecord where
  | snapshot
  | input
deriving DecidableEq, Repr

namespace SnapshotRecord

/-- Their fields. -/
def outline : Json.Outline SnapshotRecord
  | snapshot =>
    [ ("type", .whole),
      ("shadow", .whole),
      ("fields", .whole),
      ("extraState", .whole),
      ("inputs", .table (.record input)),
      ("next", .record snapshot),
      ("duplicateOnDrag", .whole) ]
  | input => [("block", .record snapshot), ("shadow", .record snapshot)]

end SnapshotRecord

namespace Snapshot

/-- A table, unless it is empty. -/
def table (members : List (String × Json)) : Option Json :=
  if members.isEmpty then none else some (.obj members)

mutual

def toJson : Snapshot → Json
  | ⟨typeName, placeholder, fields, extra, inputs, next, copyOnDrag⟩ =>
    .record
      [ ("type", some (.str typeName)),
        ("shadow", if placeholder then some (.bool true) else none),
        ("fields", table (fields.map fun (name, value) => (name, .str value))),
        ("extraState", extra),
        ("inputs", table (inputsToJson inputs)),
        ("next", anyToJson next),
        ("duplicateOnDrag", copyOnDrag.map .bool) ]

def anyToJson : Option Snapshot → Option Json
  | none => none
  | some s => some (toJson s)

def inputsToJson : List (String × InputSnapshot Snapshot) → List (String × Json)
  | [] => []
  | (name, ⟨block, template⟩) :: rest =>
    (name, .record [("block", anyToJson block), ("shadow", anyToJson template)])
      :: inputsToJson rest

end

/-- The members of a table by ascending name; of several of one name the last counts. -/
def table? {α : Type} (value : Json → Option α) : Json → Option (List (String × α))
  | .obj members => do
    return Assoc.ofList (← members.mapM fun (name, j) => return (name, ← value j))
  | _ => none

/-- Read what an input holds, given a reader of snapshots. -/
def inputOfJson? (snapshot? : Json → Option Snapshot) (j : Json) :
    Option (InputSnapshot Snapshot) := do
  let fields ← j.fields? (SnapshotRecord.outline.names .input)
  return ⟨← fields.optional 0 snapshot?, ← fields.optional 1 snapshot?⟩

def ofJsonWithin? : Nat → Json → Option Snapshot
  | 0, _ => none
  | depth + 1, j => do
    let fields ← j.fields? (SnapshotRecord.outline.names .snapshot)
    return {
      typeName := ← fields.required 0 Json.str?
      placeholder := ← fields.orElse 1 false Json.bool?
      fields := ← fields.orElse 2 [] (table? Json.str?)
      extra := ← fields.optional 3 fun j => some j.canonical
      inputs := ← fields.orElse 4 [] (table? (inputOfJson? (ofJsonWithin? depth)))
      next := ← fields.optional 5 (ofJsonWithin? depth)
      copyOnDrag := ← fields.optional 6 Json.bool? }

/-- Read a snapshot. A snapshot lies deeper in the notation than the one that holds it. -/
def ofJson? (j : Json) : Option Snapshot :=
  ofJsonWithin? (j.nesting + 1) j

end Snapshot

namespace InputSnapshot

def toJson (i : InputSnapshot Snapshot) : Json :=
  .record [("block", i.block.map Snapshot.toJson), ("shadow", i.template.map Snapshot.toJson)]

def ofJson? (j : Json) : Option (InputSnapshot Snapshot) :=
  Snapshot.inputOfJson? Snapshot.ofJson? j

end InputSnapshot

end BlockEditor
