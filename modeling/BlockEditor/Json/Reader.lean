import BlockEditor.Json.Numeral
import BlockEditor.Json.Outline

/-!
# Reading JSON text

One value, with blanks around it. The notation is the standard one, without extensions: no
comments, no trailing commas, no control characters inside strings. Of what is read, an escaped
surrogate has to be half of a pair, a numeral has to be in the range of doubles, and containers
may lie 127 deep. What is passed over has to be well formed only.

The readers return the text that is left. They count down a number of steps that the length of
the text bounds, since of any three steps one consumes a character.
-/

namespace BlockEditor.Json.Reader

/-- The deepest nesting of containers that is read. -/
def maxNesting : Nat := 127

def isBlank (c : Char) : Bool :=
  c == ' ' || c == '\n' || c == '\t' || c == '\r'

def skipBlanks (cs : List Char) : List Char :=
  cs.dropWhile isBlank

def digit? (c : Char) : Option Nat :=
  if '0' ≤ c ∧ c ≤ '9' then some (c.toNat - '0'.toNat) else none

def hexDigit? (c : Char) : Option Nat :=
  if '0' ≤ c ∧ c ≤ '9' then some (c.toNat - '0'.toNat)
  else if 'a' ≤ c ∧ c ≤ 'f' then some (c.toNat - 'a'.toNat + 10)
  else if 'A' ≤ c ∧ c ≤ 'F' then some (c.toNat - 'A'.toNat + 10)
  else none

/-- Four hexadecimal digits. -/
def codeUnit : List Char → Option (Nat × List Char)
  | a :: b :: c :: d :: rest => do
    let a ← hexDigit? a
    let b ← hexDigit? b
    let c ← hexDigit? c
    let d ← hexDigit? d
    return (((a * 16 + b) * 16 + c) * 16 + d, rest)
  | _ => none

/-- What stands after `\u`: a code unit, or two that make a pair of surrogates. -/
def escapedUnit (cs : List Char) : Option (Char × List Char) := do
  let (unit, rest) ← codeUnit cs
  if unit < 0xD800 ∨ 0xDFFF < unit then
    return (Char.ofNat unit, rest)
  if 0xDBFF < unit then
    none
  match rest with
  | '\\' :: 'u' :: rest =>
    let (low, rest) ← codeUnit rest
    if low < 0xDC00 ∨ 0xDFFF < low then
      none
    return (Char.ofNat (0x10000 + (unit - 0xD800) * 0x400 + (low - 0xDC00)), rest)
  | _ => none

/-- What stands after a backslash. -/
def escaped : List Char → Option (Char × List Char)
  | '"' :: rest => some ('"', rest)
  | '\\' :: rest => some ('\\', rest)
  | '/' :: rest => some ('/', rest)
  | 'b' :: rest => some ('\x08', rest)
  | 'f' :: rest => some ('\x0c', rest)
  | 'n' :: rest => some ('\n', rest)
  | 'r' :: rest => some ('\r', rest)
  | 't' :: rest => some ('\t', rest)
  | 'u' :: rest => escapedUnit rest
  | _ => none

/-- The rest of a string after its opening quote; `read` holds what was read, latest first. -/
def quoted : Nat → List Char → List Char → Option (String × List Char)
  | 0, _, _ => none
  | steps + 1, read, cs =>
    match cs with
    | [] => none
    | '"' :: rest => some (String.ofList read.reverse, rest)
    | '\\' :: rest => do
      let (c, rest) ← escaped rest
      quoted steps (c :: read) rest
    | c :: rest => if c < ' ' then none else quoted steps (c :: read) rest

def string (steps : Nat) : List Char → Option (String × List Char)
  | '"' :: rest => quoted steps [] rest
  | _ => none

def isDigit (c : Char) : Bool :=
  (digit? c).isSome

/-- The digits at the front. -/
def digits (cs : List Char) : List Nat × List Char :=
  ((cs.takeWhile isDigit).filterMap digit?, cs.dropWhile isDigit)

/-- At least one digit. -/
def someDigits (cs : List Char) : Option (List Nat × List Char) :=
  match digits cs with
  | ([], _) => none
  | found => some found

/-- No exponent beyond this one makes a difference. -/
def maxExponent : Nat := Nat.pow 10 10

def fraction : List Char → Option (Option (List Nat) × List Char)
  | '.' :: rest => do
    let (ds, rest) ← someDigits rest
    return (some ds, rest)
  | cs => some (none, cs)

def exponent : List Char → Option (Option Int × List Char)
  | c :: rest =>
    if c == 'e' || c == 'E' then do
      let (negative, rest) := match rest with
        | '+' :: rest => (false, rest)
        | '-' :: rest => (true, rest)
        | rest => (false, rest)
      let (ds, rest) ← someDigits rest
      let size : Nat := ds.foldl (fun n d => min (n * 10 + d) maxExponent) 0
      return (some (if negative then -(size : Int) else size), rest)
    else
      some (none, c :: rest)
  | [] => some (none, [])

/-- The parts of a numeral. A leading zero stands alone before the point. -/
def parts (cs : List Char) : Option (Numeral.Parts × List Char) := do
  let (negative, cs) := match cs with
    | '-' :: rest => (true, rest)
    | cs => (false, cs)
  let (whole, cs) ← someDigits cs
  match whole with
  | 0 :: _ :: _ => none
  | _ =>
    let (fraction, cs) ← fraction cs
    let (exponent, cs) ← exponent cs
    return ({ negative, whole, fraction, exponent }, cs)

def numeral (cs : List Char) : Option (Number × List Char) := do
  let (p, rest) ← parts cs
  return (← Numeral.value? p, rest)

/-- The text after `word`, if it begins with it. -/
def afterWord : List Char → List Char → Option (List Char)
  | [], cs => some cs
  | w :: word, c :: cs => if w = c then afterWord word cs else none
  | _ :: _, [] => none

/-- The text after `null`, `true` or `false`. -/
def afterConstant : List Char → Option (Json × List Char)
  | 'n' :: rest => (afterWord ['u', 'l', 'l'] rest).map (.null, ·)
  | 't' :: rest => (afterWord ['r', 'u', 'e'] rest).map (.bool true, ·)
  | 'f' :: rest => (afterWord ['a', 'l', 's', 'e'] rest).map (.bool false, ·)
  | _ => none

/-! ## Passing over values -/

/-- The text after an escape. Any code unit will do. -/
def afterEscape : List Char → Option (List Char)
  | 'u' :: rest => (codeUnit rest).map (·.2)
  | c :: rest => if ['"', '\\', '/', 'b', 'f', 'n', 'r', 't'].contains c then some rest else none
  | [] => none

/-- The text after a string, from behind its opening quote. -/
def afterQuoted : Nat → List Char → Option (List Char)
  | 0, _ => none
  | steps + 1, cs =>
    match cs with
    | [] => none
    | '"' :: rest => some rest
    | '\\' :: rest => afterEscape rest >>= afterQuoted steps
    | c :: rest => if c < ' ' then none else afterQuoted steps rest

/-- A container around the value that is passed over. -/
inductive Enclosing where
  | array
  | object
deriving DecidableEq

def Enclosing.close : Enclosing → Char
  | array => ']'
  | object => '\x7d'

mutual

/-- The text after a value and after the containers around it, innermost first. -/
def afterValue : (steps : Nat) → List Enclosing → List Char → Option (List Char)
  | 0, _, _ => none
  | steps + 1, around, cs =>
    match skipBlanks cs with
    | '"' :: rest => afterQuoted steps rest >>= afterRest steps around
    | '[' :: rest =>
      match skipBlanks rest with
      | ']' :: rest => afterRest steps around rest
      | rest => afterValue steps (.array :: around) rest
    | '{' :: rest =>
      match skipBlanks rest with
      | '}' :: rest => afterRest steps around rest
      | rest => afterMember steps (.object :: around) rest
    | rest =>
      match afterConstant rest with
      | some (_, rest) => afterRest steps around rest
      | none => parts rest >>= fun (_, rest) => afterRest steps around rest

/-- From the name of a member on. -/
def afterMember : (steps : Nat) → List Enclosing → List Char → Option (List Char)
  | 0, _, _ => none
  | steps + 1, around, cs =>
    match skipBlanks cs with
    | '"' :: rest => do
      match skipBlanks (← afterQuoted steps rest) with
      | ':' :: rest => afterValue steps around rest
      | _ => none
    | _ => none

/-- From the end of a value on. -/
def afterRest : (steps : Nat) → List Enclosing → List Char → Option (List Char)
  | _, [], cs => some cs
  | 0, _ :: _, _ => none
  | steps + 1, inner :: around, cs =>
    match skipBlanks cs with
    | [] => none
    | c :: rest =>
      if c = inner.close then afterRest steps around rest
      else if c ≠ ',' then none
      else
        match inner with
        | .array => afterValue steps (inner :: around) rest
        | .object => afterMember steps (inner :: around) rest

end

/-! ## Reading values -/

variable {κ : Type}

mutual

/-- One value, inside containers that leave room for `depth` more. -/
def value (outline : Outline κ) :
    (steps depth : Nat) → Want κ → List Char → Option (Json × List Char)
  | 0, _, _, _ => none
  | steps + 1, depth, want, cs =>
    match skipBlanks cs with
    | '"' :: rest => (quoted steps [] rest).map fun (s, rest) => (.str s, rest)
    | '[' :: rest =>
      match depth with
      | 0 => none
      | depth + 1 =>
        match skipBlanks rest with
        | ']' :: rest => some (.arr [], rest)
        | rest => items outline steps depth want 0 [] rest
    | '{' :: rest =>
      match depth with
      | 0 => none
      | depth + 1 =>
        match skipBlanks rest with
        | '}' :: rest => some (.obj [], rest)
        | rest => members outline steps depth want [] rest
    | rest =>
      match afterConstant rest with
      | some found => some found
      | none => (numeral rest).map fun (n, rest) => (.num n, rest)

/-- The items of an array from a place on, up to its closing bracket; `read` holds those before,
latest first. -/
def items (outline : Outline κ) :
    (steps depth : Nat) → Want κ → Nat → List Json → List Char → Option (Json × List Char)
  | 0, _, _, _, _, _ => none
  | steps + 1, depth, want, place, read, cs =>
    match value outline steps depth (want.item outline place) cs with
    | none => none
    | some (item, rest) =>
      match skipBlanks rest with
      | ']' :: rest => some (.arr (item :: read).reverse, rest)
      | ',' :: rest => items outline steps depth want (place + 1) (item :: read) rest
      | _ => none

/-- The members of an object up to its closing brace; `read` holds those before, latest first. -/
def members (outline : Outline κ) :
    (steps depth : Nat) → Want κ → List (String × Json) → List Char →
      Option (Json × List Char)
  | 0, _, _, _, _ => none
  | steps + 1, depth, want, read, cs =>
    match string steps (skipBlanks cs) with
    | none => none
    | some (name, rest) =>
      match skipBlanks rest with
      | ':' :: rest =>
        match want.member? outline name with
        | some wanted =>
          match value outline steps depth wanted rest with
          | some (value, rest) => moreMembers outline steps depth want ((name, value) :: read) rest
          | none => none
        | none =>
          match afterValue steps [] rest with
          | some rest => moreMembers outline steps depth want read rest
          | none => none
      | _ => none

/-- What follows a member. -/
def moreMembers (outline : Outline κ) :
    (steps depth : Nat) → Want κ → List (String × Json) → List Char →
      Option (Json × List Char)
  | 0, _, _, _, _ => none
  | steps + 1, depth, want, read, cs =>
    match skipBlanks cs with
    | '}' :: rest => some (.obj read.reverse, rest)
    | ',' :: rest => members outline steps depth want read rest
    | _ => none

end

end Reader

/-- The value that `text` writes, as far as it is wanted, with the members as they are written. -/
def readText? {κ : Type} (outline : Outline κ) (want : Want κ) (text : String) : Option Json :=
  let cs := text.toList
  match Reader.value outline (4 * cs.length + 4) Reader.maxNesting want cs with
  | some (value, rest) => if (Reader.skipBlanks rest).isEmpty then some value else none
  | none => none

/-- The value that `text` writes, in canonical form. -/
def ofText? (text : String) : Option Json :=
  (readText? Outline.none .whole text).map canonical

end BlockEditor.Json
