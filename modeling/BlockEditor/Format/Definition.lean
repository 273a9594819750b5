import BlockEditor.Definition
import BlockEditor.Format.Words

/-!
# Notation of definitions
-/

namespace BlockEditor

/-- A list of words. -/
def strings? : Json → Option (List String) :=
  Json.list? Json.str?

def checkToJson (check : Option (List String)) : Option Json :=
  check.map (Json.list .str)

namespace ContainerKind

def toJson : ContainerKind → Json
  | list => .tagged "kind" "list" []
  | tuple => .tagged "kind" "tuple" []
  | set => .tagged "kind" "set" []
  | dict => .tagged "kind" "dict" []
  | delete => .tagged "kind" "delete" []
  | call => .tagged "kind" "call" []
  | comprehension hasCondition =>
    .tagged "kind" "comprehension" [("has_if", .bool hasCondition)]

def ofJson? (j : Json) : Option ContainerKind := do
  let (name, rest) ← j.tagged? "kind"
  match name with
  | "list" => do rest.noFields?; return list
  | "tuple" => do rest.noFields?; return tuple
  | "set" => do rest.noFields?; return set
  | "dict" => do rest.noFields?; return dict
  | "delete" => do rest.noFields?; return delete
  | "call" => do rest.noFields?; return call
  | "comprehension" => do
    let fields ← rest.fields? ["has_if"]
    return comprehension (← fields.required 0 Json.bool?)
  | _ => none

end ContainerKind

namespace Field

def toJson : Field → Json
  | label s => .tagged "kind" "label" [("text", .str s)]
  | text name value => .tagged "kind" "text" [("name", .str name), ("value", .str value)]
  | action control => .tagged "kind" "action" [("action", control.toJson)]

def ofJson? (j : Json) : Option Field := do
  let (name, rest) ← j.tagged? "kind"
  match name with
  | "label" => do
    let fields ← rest.fields? ["text"]
    return label (← fields.required 0 Json.str?)
  | "text" => do
    let fields ← rest.fields? ["name", "value"]
    return text (← fields.required 0 Json.str?) (← fields.required 1 Json.str?)
  | "action" => do
    let fields ← rest.fields? ["action"]
    return action (← fields.required 0 Control.ofInnerJson?)
  | _ => none

end Field

namespace ContainerTemplate

def toJson (s : ContainerTemplate) : Json :=
  .record
    [ ("kind", some s.kind.toJson),
      ("open_with", some (.str s.openWith)),
      ("close_with", some (.str s.closeWith)),
      ("elt_check", checkToJson s.elementCheck) ]

def ofJson? (j : Json) : Option ContainerTemplate := do
  let fields ← j.fields? ["kind", "open_with", "close_with", "elt_check"]
  return {
    kind := ← fields.required 0 ContainerKind.ofJson?
    openWith := ← fields.required 1 Json.str?
    closeWith := ← fields.required 2 Json.str?
    elementCheck := ← fields.optional 3 strings? }

end ContainerTemplate

namespace InputTemplate

def toJson (t : InputTemplate) : Json :=
  .record
    [ ("name", some (.str t.name)),
      ("kind", some t.kind.toJson),
      ("fields", some (.list Field.toJson t.fields)),
      ("check", checkToJson t.check) ]

def ofJson? (j : Json) : Option InputTemplate := do
  let fields ← j.fields? ["name", "kind", "fields", "check"]
  return {
    name := ← fields.required 0 Json.str?
    kind := ← fields.required 1 InputKind.ofJson?
    fields := ← fields.orElse 2 [] (Json.list? Field.ofJson?)
    check := ← fields.optional 3 strings? }

end InputTemplate

namespace ConnectionTemplate

def toJson (s : ConnectionTemplate) : Json :=
  .record [("check", checkToJson s.check)]

def ofJson? (j : Json) : Option ConnectionTemplate := do
  let fields ← j.fields? ["check"]
  return ⟨← fields.optional 0 strings?⟩

end ConnectionTemplate

namespace BlockDefinition

def toJson (d : BlockDefinition) : Json :=
  .record
    [ ("type_name", some (.str d.typeName)),
      ("category", some (.str d.category)),
      ("colour", some (.str d.colour)),
      ("output", d.output.map ConnectionTemplate.toJson),
      ("previous", d.previous.map ConnectionTemplate.toJson),
      ("next", d.next.map ConnectionTemplate.toJson),
      ("inputs", some (.list InputTemplate.toJson d.inputs)),
      ("container", d.container.map ContainerTemplate.toJson) ]

def ofJson? (j : Json) : Option BlockDefinition := do
  let fields ← j.fields?
    ["type_name", "category", "colour", "output", "previous", "next", "inputs", "container"]
  return {
    typeName := ← fields.required 0 Json.str?
    category := ← fields.required 1 Json.str?
    colour := ← fields.required 2 Json.str?
    output := ← fields.optional 3 ConnectionTemplate.ofJson?
    previous := ← fields.optional 4 ConnectionTemplate.ofJson?
    next := ← fields.optional 5 ConnectionTemplate.ofJson?
    inputs := ← fields.orElse 6 [] (Json.list? InputTemplate.ofJson?)
    container := ← fields.optional 7 ContainerTemplate.ofJson? }

end BlockDefinition

def Registry.toJson (r : Registry) : Json :=
  .obj [("definitions", .obj (r.definitions.toList.map fun (name, d) => (name, d.toJson)))]

end BlockEditor
