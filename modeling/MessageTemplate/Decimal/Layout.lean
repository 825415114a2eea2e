import MessageTemplate.Decimal.Shortest

/-! # Writing doubles in decimal

The digits are those of the shortest decimal that reads back. Where the point goes, and when an
exponent is written instead, is a matter of the format. -/

namespace MessageTemplate.Decimal

/-- The choices of a format. `positional` tells for the power of ten of the first digit whether
the number is written without an exponent; `wholePoint` asks for a `.0` after whole numbers. -/
structure Layout where
  positional : Int → Bool
  wholePoint : Bool

/-- Every number is written out, and whole numbers look like integers. -/
def plain : Layout := ⟨fun _ => true, false⟩

/-- From `0.00001` up to sixteen digits before the point numbers are written out; all others
carry a signed exponent of at least two digits. Whole numbers written out end in `.0`. -/
def scientific : Layout := ⟨fun power => -5 ≤ power && power ≤ 15, true⟩

/-- The digits of a positive number with the point put in place. -/
def Layout.positionalText (layout : Layout) (x : Scaled) : List Char :=
  let digits := Nat.toDigits 10 x.digits
  if 0 ≤ x.exponent then
    let whole := digits ++ List.replicate x.exponent.toNat '0'
    if layout.wholePoint then whole ++ ['.', '0'] else whole
  else
    let places := (-x.exponent).toNat
    if places < digits.length then
      digits.take (digits.length - places) ++ '.' :: digits.drop (digits.length - places)
    else
      '0' :: '.' :: (List.replicate (places - digits.length) '0' ++ digits)

/-- One digit before the point and a signed exponent after the others. -/
def exponentText (x : Scaled) (power : Int) : List Char :=
  let mantissa := match Nat.toDigits 10 x.digits with
    | first :: second :: others => first :: '.' :: second :: others
    | digits => digits
  let exponent := Nat.toDigits 10 power.natAbs
  let padded := if exponent.length < 2 then '0' :: exponent else exponent
  mantissa ++ 'e' :: (if power < 0 then '-' else '+') :: padded

/-- The text of a double. -/
def Layout.write (layout : Layout) (x : Float) : String :=
  if x.isNaN then "NaN"
  else
    let magnitude : List Char :=
      if x.isInf then ['i', 'n', 'f']
      else if x == 0.0 then if layout.wholePoint then ['0', '.', '0'] else ['0']
      else
        let short := shortest x
        let power := short.exponent + (Nat.toDigits 10 short.digits).length - 1
        if layout.positional power then layout.positionalText short else exponentText short power
    String.ofList (if x.toBits >= 0x8000000000000000 then '-' :: magnitude else magnitude)

end MessageTemplate.Decimal
