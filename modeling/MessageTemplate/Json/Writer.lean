import MessageTemplate.Json.Basic
import MessageTemplate.Decimal.Layout

/-! # Writing JSON

Values are written without white space. Strings escape the quote, the backslash and the control
characters below the space, and nothing else. Each writer puts its text in front of a given
rest. -/

namespace MessageTemplate.Json

/-- A hexadecimal digit in lower case. -/
def hexDigit (value : Nat) : Char :=
  if value < 10 then Char.ofNat ('0'.toNat + value) else Char.ofNat ('a'.toNat + (value - 10))

/-- Writes one character of a string. -/
def writeChar (c : Char) (rest : List Char) : List Char :=
  if c = '"' then '\\' :: '"' :: rest
  else if c = '\\' then '\\' :: '\\' :: rest
  else if 0x20 ≤ c.toNat then c :: rest
  else if c = '\x08' then '\\' :: 'b' :: rest
  else if c = '\x0c' then '\\' :: 'f' :: rest
  else if c = '\n' then '\\' :: 'n' :: rest
  else if c = '\r' then '\\' :: 'r' :: rest
  else if c = '\t' then '\\' :: 't' :: rest
  else '\\' :: 'u' :: '0' :: '0' :: hexDigit (c.toNat / 16) :: hexDigit (c.toNat % 16) :: rest

/-- Writes the characters of a string and its closing quote. -/
def writeBody : List Char → List Char → List Char
  | [], rest => '"' :: rest
  | c :: body, rest => writeChar c (writeBody body rest)

/-- Writes a string between quotes. -/
def writeString (text : String) (rest : List Char) : List Char :=
  '"' :: writeBody text.toList rest

/-- Writes a number. JSON has no text for infinities and undefined values, which become null. -/
def writeNumber (value : Number) (rest : List Char) : List Char :=
  match value with
  | .whole value => (toString value).toList ++ rest
  | .real value =>
    if value.isNaN || value.isInf then "null".toList ++ rest
    else (Decimal.scientific.write value).toList ++ rest

mutual

/-- Writes a value. -/
def write : Json → List Char → List Char
  | .null, rest => "null".toList ++ rest
  | .bool true, rest => "true".toList ++ rest
  | .bool false, rest => "false".toList ++ rest
  | .number value, rest => writeNumber value rest
  | .string body, rest => writeString body rest
  | .array [], rest => '[' :: ']' :: rest
  | .array (item :: items), rest => '[' :: write item (writeItems items rest)
  | .object [], rest => '\x7b' :: '\x7d' :: rest
  | .object ((key, value) :: members), rest =>
    '\x7b' :: writeString key (':' :: write value (writeMembers members rest))

/-- Writes the items after the first one and the end of an array. -/
def writeItems : List Json → List Char → List Char
  | [], rest => ']' :: rest
  | item :: items, rest => ',' :: write item (writeItems items rest)

/-- Writes the members after the first one and the end of an object. -/
def writeMembers : List (String × Json) → List Char → List Char
  | [], rest => '\x7d' :: rest
  | (key, value) :: members, rest =>
    ',' :: writeString key (':' :: write value (writeMembers members rest))

end

/-- The JSON text of a value. -/
def text (value : Json) : String :=
  String.ofList (write value [])

end MessageTemplate.Json
