import BlockEditor.Definition

/-!
# The palette

The definitions that an editor starts with: the containers, and the plain blocks.
-/

namespace BlockEditor.Palette

def collectionColour : String := "#ff9966"

def functionColour : String := "#ff99aa"

def variableColour : String := "#ffa54c"

def logicColour : String := "#98b8d8"

def mathColour : String := "#97a2d8"

/-- A connection that accepts one type. -/
def only (typeName : String) : Option ConnectionTemplate :=
  some ⟨some [typeName]⟩

/-- A connection that accepts anything. -/
def anything : Option ConnectionTemplate :=
  some ⟨none⟩

def valueInput (name : String) (fields : List Field) : InputTemplate where
  name := name
  kind := .value
  fields := fields
  check := none

/-- A row of fields without a connection. -/
def row (fields : List Field) : InputTemplate where
  name := ""
  kind := .dummy
  fields := fields
  check := none

/-- A definition without connections and inputs. -/
def bare (typeName category colour : String) : BlockDefinition where
  typeName := typeName
  category := category
  colour := colour
  output := none
  previous := none
  next := none
  inputs := []
  container := none

def container (typeName : String) (kind : ContainerKind) (openWith closeWith : String) :
    BlockDefinition :=
  { bare typeName "Collections" collectionColour with
    output := only "value"
    container := some ⟨kind, openWith, closeWith, none⟩ }

def comprehension (typeName : String) (hasCondition : Bool) (openWith closeWith : String)
    (elementCheck : Option (List String)) : BlockDefinition :=
  { bare typeName "Collections" collectionColour with
    output := only "value"
    container := some ⟨.comprehension hasCondition, openWith, closeWith, elementCheck⟩ }

/-- A value block with a single row of fields. -/
def literal (typeName category colour : String) (field : Field) : BlockDefinition :=
  { bare typeName category colour with
    output := only typeName
    inputs := [row [field]] }

def containers : List BlockDefinition :=
  [ container "List" .list "[" "]",
    container "Tuple" .tuple "(" ")",
    container "Set" .set "\x7b" "\x7d",
    container "Dict" .dict "\x7b" "\x7d",
    { container "Delete" .delete "del" "" with
      output := none
      previous := anything
      next := anything },
    { container "Call" .call "(" ")" with
      category := "Functions"
      colour := functionColour },
    comprehension "ListComp" true "[" "]" none,
    comprehension "SetComp" true "\x7b" "\x7d" none,
    comprehension "GeneratorExp" true "(" ")" none,
    comprehension "DictComp" false "\x7b" "\x7d" (some ["dict_item"]) ]

def values : List BlockDefinition :=
  [ { bare "dict_item" "Collections" collectionColour with
      output := only "dict_item"
      inputs := [valueInput "key" [], valueInput "value" [.label ":"]] },
    { bare "dict_unpack" "Collections" collectionColour with
      output := only "dict_unpack"
      inputs := [valueInput "value" [.label "**"]] },
    literal "int" "Math" "#ffffff" (.text "value" "0"),
    literal "str" "Text" "#ffffff" (.text "value" ""),
    literal "bool" "Logic" logicColour (.text "value" "True"),
    literal "Name" "Variables" variableColour (.text "var" "x"),
    { bare "BinOp" "Math" mathColour with
      output := anything
      inputs := [valueInput "left" [], row [.text "op" "Add"], valueInput "right" []] } ]

def statements : List BlockDefinition :=
  [ { bare "Assign" "Variables" variableColour with
      previous := anything
      next := anything
      inputs := [row [.text "var" "x", .text "op" "="], valueInput "value" []] },
    { bare "Return" "Functions" functionColour with
      previous := anything
      inputs := [valueInput "value" [.label "return"]] },
    { bare "Pass" "Functions" functionColour with
      previous := anything
      inputs := [row [.label "pass"]] },
    { bare "print_block" "Text" "#5b80a5" with
      previous := anything
      next := anything
      inputs := [row [.label "print("], valueInput "ARG0" [], row [.label ")"]] },
    { bare "FunctionDef" "Functions" functionColour with
      previous := anything
      next := anything
      inputs :=
        [ row [.label "def", .text "name" "my_function", .label "():"],
          ⟨"body", .statement, [], none⟩ ] } ]

/-- The registry of the palette. -/
def registry : Registry :=
  Registry.empty.registerAll (containers ++ values ++ statements)

end BlockEditor.Palette
