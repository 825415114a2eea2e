import MessageTemplate.Text.Basic

/-! # Whole numbers in decimal

Counts and positions are 64-bit words and integers are signed 64-bit words; a text whose value
lies outside the range is no number. Digits are ASCII digits only. -/

namespace MessageTemplate.Text

/-- The largest count. -/
def maxCount : Nat := 0xFFFFFFFFFFFFFFFF

/-- The largest integer. -/
def maxInteger : Int := 0x7FFFFFFFFFFFFFFF

/-- The smallest integer. -/
def minInteger : Int := -0x8000000000000000

/-- The value of a nonempty run of digits. -/
def digits? (text : List Char) : Option Nat :=
  if !text.isEmpty && text.all Char.isDigit then some (Nat.ofDigitChars 10 text 0) else none

/-- Reads a count: digits after an optional plus sign. -/
def count? (text : List Char) : Option Nat :=
  let digits := match text with
    | '+' :: rest => rest
    | _ => text
  (digits? digits).filter (· ≤ maxCount)

/-- Reads an integer: digits after an optional sign. -/
def integer? (text : List Char) : Option Int :=
  let value : Option Int := match text with
    | '+' :: rest => (digits? rest).map Int.ofNat
    | '-' :: rest => (digits? rest).map fun n => -Int.ofNat n
    | _ => (digits? text).map Int.ofNat
  value.filter fun n => minInteger ≤ n && n ≤ maxInteger

/-- The decimal digits of a number are read back as that number. -/
theorem digits?_toDigits (n : Nat) : digits? (Nat.toDigits 10 n) = some n := by
  have digits : (Nat.toDigits 10 n).all Char.isDigit = true :=
    List.all_eq_true.mpr fun c member => Nat.isDigit_of_mem_toDigits (by decide) (by decide) member
  have nonempty : (Nat.toDigits 10 n).isEmpty = false := by
    simp [Nat.toDigits_ne_nil]
  simp [digits?, digits, nonempty, Nat.ofDigitChars_toDigits]

end MessageTemplate.Text
