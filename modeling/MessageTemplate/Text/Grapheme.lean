import MessageTemplate.Text.Class

/-! # Characters as readers see them

What a reader takes for one character may be a base with marks behind it, a row of symbols that
are joined, a pair of letters for a flag, or a line break of two characters. -/

namespace MessageTemplate.Text

/-- The character that joins symbols. -/
def joiner : Char := '\u200D'

/-- Marks, and the modifiers of skin tone. -/
def extendsPrevious (c : Char) : Bool :=
  c = joiner || (0x1F3FB ≤ c.toNat && c.toNat ≤ 0x1F3FF)
    || (0x80 ≤ c.toNat && markRanges.has c)

/-- Symbols that a joiner may join. -/
def isSymbol (c : Char) : Bool :=
  (0x1F000 ≤ c.toNat && c.toNat ≤ 0x1FAFF) || (0x2190 ≤ c.toNat && c.toNat ≤ 0x2BFF)

/-- The letters that flags are written with. -/
def isFlagLetter (c : Char) : Bool :=
  0x1F1E6 ≤ c.toNat && c.toNat ≤ 0x1F1FF

/-- Whether a character goes on what stands before it. -/
def continuesGrapheme (before : List Char) (c : Char) : Bool :=
  match before.getLast? with
  | none => false
  | some last =>
    (last = '\r' && c = '\n')
      || (extendsPrevious c && last ≠ '\r' && last ≠ '\n')
      || (last = joiner && isSymbol c && before.head?.any isSymbol)
      || (isFlagLetter c && before.length = 1 && isFlagLetter last)

/-- The rest of a text in graphemes, given the current one. -/
def graphemesFrom (current : List Char) : List Char → List (List Char)
  | [] => if current.isEmpty then [] else [current]
  | c :: rest =>
    if continuesGrapheme current c then graphemesFrom (current ++ [c]) rest
    else if current.isEmpty then graphemesFrom [c] rest
    else current :: graphemesFrom [c] rest

/-- A text in graphemes. -/
def graphemes (text : List Char) : List (List Char) := graphemesFrom [] text

end MessageTemplate.Text
