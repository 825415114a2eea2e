import MessageTemplate.Text.Whole

/-! # Reading doubles

A decimal text denotes the double nearest to its exact value; values beyond the largest double
are infinite, and values too small are zero. -/

namespace MessageTemplate.Decimal

open MessageTemplate.Text

/-- The double nearest to `digits * 10 ^ exponent`. Exponents far outside the range of doubles
are decided without computing the power. -/
def nearest (digits : Nat) (exponent : Int) : Float :=
  let power := exponent + (Nat.toDigits 10 digits).length
  if digits = 0 || power < -400 then 0.0
  else if power > 400 then 1.0 / 0.0
  else if 0 ≤ exponent then OfScientific.ofScientific digits false exponent.toNat
  else OfScientific.ofScientific digits true (-exponent).toNat

/-- The digits at the start of a text, and what follows them. -/
def spanDigits (text : List Char) : List Char × List Char :=
  (text.takeWhile Char.isDigit, text.dropWhile Char.isDigit)

/-- Reads an exponent: nothing, or an `e` with digits after an optional sign. -/
def exponent? : List Char → Option Int
  | [] => some 0
  | mark :: text =>
    if mark = 'e' || mark = 'E' then
      match text with
      | '+' :: digits => (digits? digits).map Int.ofNat
      | '-' :: digits => (digits? digits).map fun n => -Int.ofNat n
      | _ => (digits? text).map Int.ofNat
    else none

/-- Reads digits with an optional point among them and an optional exponent. One side of the
point may be without digits. -/
def unsigned? (text : List Char) : Option Float :=
  let (whole, rest) := spanDigits text
  let (fraction, rest) := match rest with
    | '.' :: tail => spanDigits tail
    | _ => ([], rest)
  if whole.isEmpty && fraction.isEmpty then none
  else (exponent? rest).map fun exponent =>
    nearest (Nat.ofDigitChars 10 (whole ++ fraction) 0) (exponent - fraction.length)

/-- Reads the words for the values that have no digits, in any case. -/
def word? (text : List Char) : Option Float :=
  match String.ofList (text.map Char.toLower) with
  | "inf" => some (1.0 / 0.0)
  | "infinity" => some (1.0 / 0.0)
  | "nan" => some (0.0 / 0.0)
  | _ => none

/-- Reads a double: a decimal or a word after an optional sign. -/
def float? (text : List Char) : Option Float :=
  let magnitude? (text : List Char) : Option Float := word? text <|> unsigned? text
  match text with
  | '+' :: rest => magnitude? rest
  | '-' :: rest => (magnitude? rest).map (- ·)
  | _ => magnitude? text

end MessageTemplate.Decimal
