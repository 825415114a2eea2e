import MessageTemplate.Json.Basic
import MessageTemplate.Decimal.Reading

/-! # Numbers in JSON text

A number without point and exponent that fits a 64-bit word is read exactly. Any other number is
a double: its leading digits are collected into a 64-bit significand, which is then multiplied or
divided by a power of ten in double arithmetic. Magnitudes beyond the largest double are
refused. -/

namespace MessageTemplate.Json

open MessageTemplate.Text

/-- The parts of a number as it is written. The exponent holds its sign and its digits. -/
structure NumberText where
  negative : Bool
  whole : List Char
  fraction : List Char
  exponent : Option (Bool × List Char)

/-- Adds digits to a significand as long as it fits a 64-bit word, and tells which digits are
left over. -/
def collect (significand : Nat) : List Char → Nat × List Char
  | [] => (significand, [])
  | digit :: rest =>
    let next := significand * 10 + (digit.toNat - '0'.toNat)
    if next ≤ maxCount then collect next rest else (significand, digit :: rest)

/-- A power of ten as a double. -/
def powerOfTen (exponent : Nat) : Float :=
  OfScientific.ofScientific 1 false exponent

/-- Divides by a power of ten. Powers beyond the largest one a double can hold are taken in
steps. -/
def shrink (x : Float) (exponent : Nat) : Float :=
  if exponent ≤ 308 then x / powerOfTen exponent
  else if x == 0.0 then x
  else shrink (x / powerOfTen 308) (exponent - 308)
termination_by exponent

/-- Multiplies by a power of ten, unless the result is too large. -/
def scale? (x : Float) (exponent : Int) : Option Float :=
  if exponent < 0 then some (shrink x (-exponent).toNat)
  else if exponent ≤ 308 then
    let scaled := x * powerOfTen exponent.toNat
    if scaled.isInf then none else some scaled
  else if x == 0.0 then some x
  else none

/-- The double that a number with point or exponent denotes. Exponents of more than 31 bits
stand for zero or for a value that is too large. -/
def NumberText.real? (text : NumberText) : Option Float :=
  let (start, dropped) := collect 0 text.whole
  let (significand, ignored) := collect start text.fraction
  let exponent : Int := dropped.length - (text.fraction.length - ignored.length : Nat)
  let magnitude : Option Float := match text.exponent with
    | none => scale? (Float.ofNat significand) exponent
    | some (negative, digits) =>
      let value := Nat.ofDigitChars 10 digits 0
      if value < 0x80000000 then
        scale? (Float.ofNat significand) (if negative then exponent - value else exponent + value)
      else if significand = 0 || negative then some 0.0
      else none
  magnitude.map fun x => if text.negative then -x else x

/-- The number that a text denotes. A negative zero is a double. -/
def NumberText.number? (text : NumberText) : Option Number :=
  let value := Nat.ofDigitChars 10 text.whole 0
  if !text.fraction.isEmpty || text.exponent.isSome then text.real?.map Number.real
  else if text.negative then
    if value ≠ 0 && value ≤ 0x8000000000000000 then some (.whole (-value)) else text.real?.map Number.real
  else if value ≤ maxCount then some (.whole value)
  else text.real?.map Number.real

/-- Reads the digits before the point: a zero alone, or digits that start with another one. -/
def readWhole? (text : List Char) : Option (List Char × List Char) :=
  match Decimal.spanDigits text with
  | (['0'], rest) => some (['0'], rest)
  | ('0' :: _, _) => none
  | ([], _) => none
  | cut => some cut

/-- Reads a point and the digits after it, if a point stands here. -/
def readFraction? : List Char → Option (List Char × List Char)
  | '.' :: text =>
    match Decimal.spanDigits text with
    | ([], _) => none
    | cut => some cut
  | text => some ([], text)

/-- Reads the digits of an exponent whose sign is known. -/
def readPower? (negative : Bool) (text : List Char) :
    Option (Option (Bool × List Char) × List Char) :=
  match Decimal.spanDigits text with
  | ([], _) => none
  | (digits, rest) => some (some (negative, digits), rest)

/-- Reads an exponent, if one stands here. -/
def readExponent? (text : List Char) : Option (Option (Bool × List Char) × List Char) :=
  match text with
  | mark :: tail =>
    if mark = 'e' || mark = 'E' then
      match tail with
      | '+' :: tail => readPower? false tail
      | '-' :: tail => readPower? true tail
      | _ => readPower? false tail
    else some (none, text)
  | [] => some (none, [])

/-- Reads a number whose sign is known. -/
def readUnsigned? (negative : Bool) (text : List Char) : Option (Number × List Char) := do
  let (whole, text) ← readWhole? text
  let (fraction, text) ← readFraction? text
  let (exponent, text) ← readExponent? text
  let number ← NumberText.number? ⟨negative, whole, fraction, exponent⟩
  return (number, text)

/-- Reads a number at the start of a text. -/
def readNumber? (text : List Char) : Option (Number × List Char) :=
  match text with
  | '-' :: rest => readUnsigned? true rest
  | _ => readUnsigned? false text

end MessageTemplate.Json
