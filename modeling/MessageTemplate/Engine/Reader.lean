import MessageTemplate.Engine.Element
import MessageTemplate.Template.TopLevel

/-! # Reading elements

Spaces and line breaks are the only blanks inside outputs and tags. A hyphen next to a delimiter
takes the blanks on its side of the template away. Every reader takes something from the start of
a text; those that repeat themselves are given the length of the text as a bound. -/

namespace MessageTemplate.Engine

open Template Text

/-! ## Words and literals -/

/-- The blanks inside of outputs and tags. -/
def isGap (c : Char) : Bool := c = ' ' || c = '\n' || c = '\r'

/-- A text without the blanks at its start. -/
def skipGap (text : List Char) : List Char := text.dropWhile isGap

/-- Whether a text starts with a hyphen that belongs to the end of an output or a tag. -/
def startsHyphenedEnd : List Char → Bool
  | '-' :: '\x7d' :: '\x7d' :: _ => true
  | '-' :: '%' :: '\x7d' :: _ => true
  | _ => false

/-- Whether a name goes on with the first character of a text. -/
def continuesName : List Char → Bool
  | [] => false
  | c :: rest => c.isAlphanum || c = '_' || (c = '-' && !startsHyphenedEnd (c :: rest))

/-- Takes the characters that go on a name. -/
def spanName : List Char → List Char × List Char
  | [] => ([], [])
  | c :: rest =>
    if continuesName (c :: rest) then (c :: (spanName rest).1, (spanName rest).2)
    else ([], c :: rest)

/-- Takes a name, which does not start with a digit. -/
def readName? (text : List Char) : Option (String × List Char) :=
  match spanName text with
  | ([], _) => none
  | (c :: name, rest) => if c.isDigit then none else some (String.ofList (c :: name), rest)

/-- The words that are literals. -/
def literalWords : List (List Char × Value) :=
  [("nil".toList, .nil), ("null".toList, .nil), ("empty".toList, .empty),
    ("blank".toList, .blank), ("true".toList, .bool true), ("false".toList, .bool false)]

/-- Takes a word that is a literal. -/
def readWord? (text : List Char) : Option (Value × List Char) :=
  literalWords.findSome? fun (word, value) =>
    (word.isPrefixOf? text).bind fun rest =>
      if continuesName rest then none else some (value, rest)

/-- Takes a text in quotes. -/
def readQuoted? : List Char → Option (Value × List Char)
  | [] => none
  | quote :: rest =>
    if isQuote quote then
      (breakAt quote rest).map fun (inner, after) => (.string (String.ofList inner), after)
    else none

/-- Takes a sign, if there is one. -/
def takeSign : List Char → List Char × List Char
  | '+' :: rest => (['+'], rest)
  | '-' :: rest => (['-'], rest)
  | text => ([], text)

/-- Takes a point and digits behind it. -/
def takeFraction? : List Char → Option (List Char × List Char)
  | '.' :: rest =>
    match Decimal.spanDigits rest with
    | ([], _) => none
    | cut => some cut
  | _ => none

/-- Takes a number: an integer, or a double if there is a point among its digits. -/
def readNumber? (text : List Char) : Option (Value × List Char) :=
  let (sign, unsigned) := takeSign text
  let (whole, rest) := Decimal.spanDigits unsigned
  match takeFraction? rest with
  | some (fraction, after) =>
    if whole.isEmpty then none
    else (Decimal.float? (sign ++ whole ++ '.' :: fraction)).map fun value => (.float value, after)
  | none => (integer? (sign ++ whole)).map fun value => (.integer value, rest)

/-- Takes a literal. -/
def readLiteral? (text : List Char) : Option (Value × List Char) :=
  readWord? text <|> readQuoted? text <|> readNumber? text

/-! ## Operands and chains -/

mutual

/-- Takes an operand: a literal, or a name and keys. -/
def readOperand? (bound : Nat) (text : List Char) : Option (Operand × List Char) :=
  match bound with
  | 0 => none
  | bound + 1 =>
    match readLiteral? text with
    | some (value, rest) => some (.literal value, rest)
    | none =>
      (readName? text).map fun (name, rest) =>
        let (keys, after) := readKeys bound rest
        (.lookup name keys, after)

/-- Takes keys: names behind dots, and operands in brackets. -/
def readKeys (bound : Nat) (text : List Char) : List Operand × List Char :=
  match bound with
  | 0 => ([], text)
  | bound + 1 =>
    match readKey? bound text with
    | some (key, rest) =>
      let (keys, after) := readKeys bound rest
      (key :: keys, after)
    | none => ([], text)

/-- Takes a key. -/
def readKey? (bound : Nat) (text : List Char) : Option (Operand × List Char) :=
  match bound with
  | 0 => none
  | bound + 1 =>
    match text with
    | '.' :: rest =>
      (readName? rest).map fun (name, after) => (.literal (.string name), after)
    | '[' :: rest => do
      let (key, rest) ← readOperand? bound (skipGap rest)
      let after ← [']'].isPrefixOf? (skipGap rest)
      return (key, after)
    | _ => none

end

/-- Takes an operand. -/
def operand? (text : List Char) : Option (Operand × List Char) :=
  readOperand? (text.length + 1) text

/-- An argument of a filter: an operand, or a name with one. -/
abbrev FilterArgument := Option String × Operand

/-- Takes an argument. -/
def readArgument? (text : List Char) : Option (FilterArgument × List Char) :=
  let named? : Option (FilterArgument × List Char) := do
    let (name, rest) ← readName? text
    let rest ← [':'].isPrefixOf? (skipGap rest)
    let (value, after) ← operand? (skipGap rest)
    return ((some name, value), after)
  named? <|> (operand? text).map fun (value, rest) => ((none, value), rest)

/-- Takes arguments between commas. A failure tells where reading stopped. -/
def readArguments (bound : Nat) (text : List Char) :
    Except (List Char) (List FilterArgument × List Char) :=
  match bound with
  | 0 => .error text
  | bound + 1 =>
    match readArgument? text with
    | none => .error text
    | some (argument, rest) =>
      match skipGap rest with
      | ',' :: after => do
        let (others, rest) ← readArguments bound (skipGap after)
        return (argument :: others, rest)
      | _ => .ok ([argument], rest)

/-- The text that has been taken from a text, given the rest. -/
def takenFrom (text rest : List Char) : List Char := text.take (text.length - rest.length)

/-- Takes a filter. -/
def readFilter (text : List Char) : Except (List Char) (FilterUse × List Char) := do
  match readName? text with
  | none => .error text
  | some (name, rest) =>
    let (arguments, after) ← (match skipGap rest with
      | ':' :: tail => readArguments (tail.length + 1) (skipGap tail)
      | _ => .ok ([], rest))
    let filter : FilterUse := {
      name := name
      arguments := arguments.filterMap fun (label, value) =>
        if label.isNone then some value else none
      named := arguments.filterMap fun (label, value) => label.map fun label => (label, value)
      source := String.ofList (takenFrom text after) }
    return (filter, after)

/-- Takes filters, each behind a bar. -/
def readFilters (bound : Nat) (text : List Char) :
    Except (List Char) (List FilterUse × List Char) :=
  match bound with
  | 0 => .error text
  | bound + 1 =>
    match skipGap text with
    | '|' :: tail => do
      let (filter, rest) ← readFilter (skipGap tail)
      let (others, after) ← readFilters bound rest
      return (filter :: others, after)
    | _ => .ok ([], text)

/-- Takes a chain of filters. -/
def readChain (text : List Char) : Except (List Char) (Chain × List Char) :=
  match operand? text with
  | none => .error text
  | some (start, rest) => do
    let (filters, after) ← readFilters (rest.length + 1) rest
    return (⟨start, filters⟩, after)

/-! ## Tokens of tags -/

/-- The symbols that may stand in a tag, longer ones first. -/
def symbols : List (List Char) :=
  ["==".toList, "!=".toList, "<>".toList, "<=".toList, ">=".toList, "<".toList, ">".toList,
    "=".toList, ":".toList, ",".toList]

/-- Takes a symbol. -/
def readSymbol? (text : List Char) : Option (TokenForm × List Char) :=
  symbols.findSome? fun symbol =>
    (symbol.isPrefixOf? text).map fun rest => (.symbol, rest)

/-- Takes two bounds in parentheses. -/
def readRange? (text : List Char) : Option (TokenForm × List Char) := do
  let rest ← ['('].isPrefixOf? text
  let (first, rest) ← operand? (skipGap rest)
  let rest ← ['.', '.'].isPrefixOf? (skipGap rest)
  let (last, rest) ← operand? (skipGap rest)
  let rest ← [')'].isPrefixOf? (skipGap rest)
  return (.range first last, rest)

/-- Takes a token of a tag. -/
def readToken? (text : List Char) : Option (TagToken × List Char) :=
  let chain? : Option (TokenForm × List Char) :=
    ((readChain text).toOption).map fun (chain, rest) => (.chain chain, rest)
  (readRange? text <|> chain? <|> readSymbol? text).map fun (form, rest) =>
    (⟨form, String.ofList (takenFrom text rest), text.length⟩, rest)

/-- Takes the tokens of a tag. -/
def readTokens (bound : Nat) (text : List Char) : List TagToken × List Char :=
  match bound with
  | 0 => ([], text)
  | bound + 1 =>
    match readToken? text with
    | some (token, rest) =>
      let (tokens, after) := readTokens bound (skipGap rest)
      (token :: tokens, after)
    | none => ([], text)

/-! ## Outputs and tags -/

/-- Takes what opens an output or a tag, together with the blanks that it takes away. -/
def readOpening? (text : List Char) : Option (Delimiter × List Char) :=
  let hyphened? (delimiter : Delimiter) : Option (Delimiter × List Char) :=
    ((delimiter.opening ++ ['-']).isPrefixOf? (skipGap text)).map (delimiter, ·)
  let plain? (delimiter : Delimiter) : Option (Delimiter × List Char) :=
    (delimiter.opening.isPrefixOf? text).map (delimiter, ·)
  hyphened? .output <|> plain? .output <|> hyphened? .tag <|> plain? .tag

/-- Takes what closes an output or a tag, together with the blanks that it takes away. -/
def readClosing (delimiter : Delimiter) (text : List Char) : Except (List Char) (List Char) :=
  let found := (('-' :: delimiter.closing).isPrefixOf? text).map skipGap <|>
    delimiter.closing.isPrefixOf? text
  match found with
  | some rest => .ok rest
  | none => .error text

/-- Takes the inside and the end of an output or a tag. -/
def readInside (delimiter : Delimiter) (text : List Char) :
    Except (List Char) (ElementForm × List Char) :=
  match delimiter with
  | .output => do
    let (chain, rest) ← readChain (skipGap text)
    return (.output chain, ← readClosing .output (skipGap rest))
  | .tag =>
    match readName? (skipGap text) with
    | none => .error (skipGap text)
    | some (name, rest) => do
      let (tokens, after) := readTokens (rest.length + 1) (skipGap rest)
      return (.tag name (skipGap text).length tokens, ← readClosing .tag after)

/-- Takes the characters before the next opening. -/
def spanText : List Char → List Char × List Char
  | [] => ([], [])
  | c :: rest =>
    if (readOpening? (c :: rest)).isSome then ([], c :: rest)
    else (c :: (spanText rest).1, (spanText rest).2)

/-- Takes an element from a text that is not empty. -/
def readElement (first : Char) (others : List Char) : ElementForm × List Char :=
  match readOpening? (first :: others) with
  | none => (.text, (spanText others).2)
  | some (delimiter, inside) =>
    match readInside delimiter inside with
    | .ok found => found
    | .error stop => (.unreadable stop.length, others)

/-- The elements of a text. -/
def readElements (bound : Nat) (text : List Char) : List Element :=
  match bound, text with
  | bound + 1, first :: others =>
    let (form, rest) := readElement first others
    ⟨form, takenFrom text rest, text.length⟩ :: readElements bound rest
  | _, _ => []

/-- The elements of a template. -/
def elements (template : List Char) : List Element :=
  readElements (template.length + 1) template

end MessageTemplate.Engine
