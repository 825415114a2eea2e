import MessageTemplate.Text.Ranges
import MessageTemplate.Text.Alphabetic
import MessageTemplate.Text.Numeral
import MessageTemplate.Text.Mark

/-! # Character classes

The classes that the readers of this library cut text by. All of them are Unicode classes; the
ASCII characters are decided first, which is only a shortcut. -/

namespace MessageTemplate.Text

/-- The characters with the Unicode property *White_Space*. -/
def blankRanges : Ranges :=
  [(0x09, 0x0D), (0x20, 0x20), (0x85, 0x85), (0xA0, 0xA0), (0x1680, 0x1680), (0x2000, 0x200A),
    (0x2028, 0x2029), (0x202F, 0x202F), (0x205F, 0x205F), (0x3000, 0x3000)]

/-- White space. The zero width space and the byte order mark are not part of it. -/
def isBlank (c : Char) : Bool :=
  blankRanges.has c

/-- Letters, digits and all other numerals. -/
def isAlphanumeric (c : Char) : Bool :=
  if c.toNat < 0x80 then c.isAlphanum else alphabeticRanges.has c || numeralRanges.has c

/-- Decimal digits of any script. -/
def isDecimalDigit (c : Char) : Bool :=
  if c.toNat < 0x80 then c.isDigit else decimalDigitRanges.has c

/-- Characters a word is made of: letters, marks, decimal digits, connectors and joiners. -/
def isWordChar (c : Char) : Bool :=
  if c.toNat < 0x80 then c.isAlphanum || c == '_'
  else alphabeticRanges.has c || markRanges.has c || decimalDigitRanges.has c
    || connectorRanges.has c || joinControlRanges.has c

/-- Characters that may follow the first one of a name. -/
def isNameChar (c : Char) : Bool :=
  isWordChar c || c == '-'

/-- A name starts with an ASCII letter or an underscore. -/
def isNameStart (c : Char) : Bool :=
  c.isAlpha || c == '_'

/-- A name: a start character and name characters after it. -/
def isName : List Char → Bool
  | [] => false
  | c :: rest => isNameStart c && rest.all isNameChar

end MessageTemplate.Text
