import BlockEditor.Decimal
import BlockEditor.Json.Basic

/-!
# Writing JSON text

The shortest text of a value: no blanks, and only those escapes that the notation asks for.
-/

namespace BlockEditor.Json

def hexDigit (n : Nat) : Char :=
  Char.ofNat (if n < 10 then '0'.toNat + n else 'a'.toNat + (n - 10))

def escapedChar (c : Char) : List Char :=
  if c == '"' then ['\\', '"']
  else if c == '\\' then ['\\', '\\']
  else if c == '\n' then ['\\', 'n']
  else if c == '\r' then ['\\', 'r']
  else if c == '\t' then ['\\', 't']
  else if c < ' ' then ['\\', 'u', '0', '0', hexDigit (c.toNat / 16), hexDigit (c.toNat % 16)]
  else [c]

def quote (s : String) : String :=
  "\"" ++ String.ofList (s.toList.flatMap escapedChar) ++ "\""

/-- A decimal with its point after the first `point` digits, and at least one digit after it. -/
def positional (digits : List Char) (point : Int) : List Char :=
  if point ≤ 0 then
    '0' :: '.' :: (List.replicate (-point).toNat '0' ++ digits)
  else
    let padded := digits ++ List.replicate (point.toNat + 1 - digits.length) '0'
    padded.take point.toNat ++ '.' :: padded.drop point.toNat

/-- A decimal with its point after the first digit, and an exponent. -/
def scientific (digits : List Char) (exponent : Int) : List Char :=
  digits.take 1 ++ (if digits.length ≤ 1 then [] else '.' :: digits.drop 1)
    ++ 'e' :: (toString exponent).toList

/-- Numerals are written out in full from `0.00001` up to sixteen digits before the point, and with
an exponent otherwise. -/
def numeral (d : Decimal.Scaled) : String :=
  let digits := Nat.toDigits 10 d.digits
  let point := (digits.length : Int) + d.exponent
  String.ofList
    (if -5 < point && point ≤ 16 then positional digits point else scientific digits (point - 1))

/-- The shortest numeral of a double, which is never taken for an integer. -/
def floatText (x : Float) : String :=
  if x.isFinite then
    let size := numeral (Decimal.shortest .toEven (Decimal.magnitude x))
    if Decimal.isNegative x then "-" ++ size else size
  else
    "null"

def Number.text : Number → String
  | .int n => toString n
  | .float x => floatText x

mutual

def text : Json → String
  | .null => "null"
  | .bool b => if b then "true" else "false"
  | .num n => n.text
  | .str s => quote s
  | .arr items => "[" ++ String.intercalate "," (textOfItems items) ++ "]"
  | .obj members => "\x7b" ++ String.intercalate "," (textOfMembers members) ++ "\x7d"

def textOfItems : List Json → List String
  | [] => []
  | item :: rest => text item :: textOfItems rest

def textOfMembers : List (String × Json) → List String
  | [] => []
  | (name, value) :: rest => (quote name ++ ":" ++ text value) :: textOfMembers rest

end

end BlockEditor.Json
