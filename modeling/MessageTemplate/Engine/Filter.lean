import MessageTemplate.Engine.Failure
import MessageTemplate.Engine.Sentence
import MessageTemplate.Engine.Value
import MessageTemplate.Text.Grapheme
import MessageTemplate.Text.Uppercase

/-! # Filters of the engine

A filter takes a value and some arguments. How many arguments it takes is checked when a template
is read. -/

namespace MessageTemplate.Engine

open Text

/-- A filter: its name, the least and the largest number of arguments, and what it does. -/
structure Filter where
  name : String
  least : Nat
  most : Nat
  apply : Value → List Value → Except Failure Value

namespace Filter

/-- What a filter gives. -/
abbrev Outcome := Except Failure Value

/-! ## Arguments -/

/-- An argument that must be a whole number if it is there. -/
def wholeArgument (name : String) (argument : Option Value) : Except Failure (Option Int) :=
  match argument with
  | none => .ok none
  | some value =>
    match value.integer? with
    | some number => .ok (some number)
    | none => .error (.badArgument name "whole number")

/-- An argument as a text. -/
def textArgument (argument : Option Value) : Option String := argument.map Value.text

/-- An argument as a text, or another text if it is left out. -/
def textOr (argument : Option Value) (usual : String) : String :=
  (textArgument argument).getD usual

/-- An integer as a count; negative ones wrap around as 64-bit words do. -/
def asCount (value : Int) : Nat := (value % 0x10000000000000000).toNat

/-- A count from an integer, none below zero. -/
def limitOf (value : Int) : Nat := value.toNat

/-- A filter that maps the text of its input. -/
def onText (change : String → String) (input : Value) (_ : List Value) : Outcome :=
  .ok (.string (change input.text))

/-- A filter that maps the characters of the text of its input. -/
def onChars (change : List Char → List Char) : Value → List Value → Outcome :=
  onText fun text => String.ofList (change text.toList)

/-! ## Collections as texts -/

/-- `json`: the compact JSON text. -/
def json (input : Value) (_ : List Value) : Outcome := .ok (.string input.toJson.text)

/-- `toSentence: 'key path', limit, 'rest'`. -/
def toSentence (input : Value) (arguments : List Value) : Outcome := do
  let limit ← wholeArgument "limit" arguments[1]?
  let names := elementNames (textArgument arguments[0]?) input.toJson
  return .string (sentence names (limit.map limitOf) (textArgument arguments[2]?))

/-- `digest: limit, 'key path'`. -/
def digest (input : Value) (arguments : List Value) : Outcome := do
  let limit ← wholeArgument "max_names" arguments[0]?
  let names := elementNames (textArgument arguments[1]?) input.toJson
  return .string (sentence names (some ((limit.map limitOf).getD digestLimit)) none)

/-- `join: 'separator'`. -/
def join (input : Value) (arguments : List Value) : Outcome :=
  match input with
  | .array items =>
    .ok (.string ((textOr arguments[0]? " ").intercalate (items.map Value.text)))
  | _ => .error (.badInput "array")

/-! ## Counts -/

/-- The number that a value counts for: a finite number itself, a text that is a number, or the
size of an array. -/
def countOf : Value → Float
  | .integer value => Float.ofInt value
  | .float value => if value.isFinite then value else 0.0
  | .string text => (Decimal.float? (trim text.toList)).getD 0.0
  | .array items => Float.ofNat items.length
  | _ => 0.0

/-- A count as it is shown: whole numbers as integers, cut off at 64 bits. -/
def countText (count : Float) : String :=
  if count.isFinite && count.floor == count then toString count.toInt64.toInt
  else Decimal.plain.write count

/-- `pluralize: 'noun', 'plural'`. Without a plural an `s` is added to the noun. -/
def pluralize (input : Value) (arguments : List Value) : Outcome :=
  let noun := textOr arguments[0]? ""
  let count := countOf input
  let word := if count == 1.0 then noun else textOr arguments[1]? (noun ++ "s")
  .ok (.string (countText count ++ " " ++ word))

/-! ## Texts -/

/-- `append: 'text'`. -/
def append (input : Value) (arguments : List Value) : Outcome :=
  .ok (.string (input.text ++ textOr arguments[0]? ""))

/-- `prepend: 'text'`. -/
def prepend (input : Value) (arguments : List Value) : Outcome :=
  .ok (.string (textOr arguments[0]? "" ++ input.text))

/-- `truncate: length, 'ellipsis'`. A text is left alone unless it has more bytes than the
length. -/
def truncate (input : Value) (arguments : List Value) : Outcome := do
  let length := ((← wholeArgument "length" arguments[0]?).map asCount).getD 50
  let ellipsis := textOr arguments[1]? "..."
  if length < input.text.utf8ByteSize then
    let kept := (graphemes input.text.toList).take (length - ellipsis.utf8ByteSize)
    return .string (String.ofList kept.flatten ++ ellipsis)
  else return input

/-- `default: fallback`. -/
def orDefault (input : Value) (arguments : List Value) : Outcome :=
  .ok (if input.isMissing then (arguments[0]?).getD .nil else input)

/-! ## Parts -/

/-- `size`: the bytes of a text, or the number of items. -/
def size (input : Value) (_ : List Value) : Outcome :=
  match input with
  | .array items => .ok (.integer items.length)
  | .object members => .ok (.integer members.length)
  | _ => .ok (.integer (if input.isScalar then input.text.utf8ByteSize else 0))

/-- An end of an array or of a text. -/
def ending (ofItems : List Value → Option Value) (ofChars : List Char → Option Char)
    (input : Value) (_ : List Value) : Outcome :=
  match input with
  | .array items => .ok ((ofItems items).getD .nil)
  | _ =>
    if input.isScalar then .ok (.string (String.ofList (ofChars input.text.toList).toList))
    else .error (.badInput "string or array")

/-- `reverse`, for arrays. -/
def reverse (input : Value) (_ : List Value) : Outcome :=
  match input with
  | .array items => .ok (.array items.reverse)
  | _ => .error (.badInput "array")

/-- `concat: array`. -/
def concat (input : Value) (arguments : List Value) : Outcome :=
  let other : Option Value := arguments[0]?
  match input, other with
  | .array items, some (.array others) => .ok (.array (items ++ others))
  | .array _, _ => .error (.badArgument "array" "array")
  | _, _ => .error (.badInput "array")

/-! ## Arithmetic -/

/-- An integer cut down to 64 bits. -/
def wrapInteger (value : Int) : Int := value.bmod 0x10000000000000000

/-- A filter with two numbers, which are added as integers if both are. -/
def arithmetic (onIntegers : Int → Int → Int) (onFloats : Float → Float → Float)
    (input : Value) (arguments : List Value) : Outcome :=
  let operand := (arguments[0]?).getD .nil
  match input.integer?, operand.integer? with
  | some left, some right => .ok (.integer (wrapInteger (onIntegers left right)))
  | _, _ =>
    match input.float?, operand.float? with
    | some left, some right => .ok (.float (onFloats left right))
    | _, _ => .error (.badInput "number")

/-! ## All filters -/

/-- The filters that can be applied. -/
def available : List Filter :=
  [⟨"append", 1, 1, append⟩, ⟨"concat", 1, 1, concat⟩, ⟨"default", 1, 1, orDefault⟩,
    ⟨"digest", 0, 2, digest⟩, ⟨"first", 0, 0, ending List.head? List.head?⟩,
    ⟨"join", 0, 1, join⟩, ⟨"json", 0, 0, json⟩,
    ⟨"last", 0, 0, ending List.getLast? List.getLast?⟩, ⟨"lstrip", 0, 0, onChars trimStart⟩,
    ⟨"minus", 1, 1, arithmetic (· - ·) (· - ·)⟩, ⟨"pluralize", 1, 2, pluralize⟩,
    ⟨"plus", 1, 1, arithmetic (· + ·) (· + ·)⟩, ⟨"prepend", 1, 1, prepend⟩,
    ⟨"reverse", 0, 0, reverse⟩, ⟨"rstrip", 0, 0, onChars trimEnd⟩, ⟨"size", 0, 0, size⟩,
    ⟨"strip", 0, 0, onChars trim⟩, ⟨"times", 1, 1, arithmetic (· * ·) (· * ·)⟩,
    ⟨"toSentence", 0, 3, toSentence⟩, ⟨"truncate", 0, 2, truncate⟩,
    ⟨"upcase", 0, 0, onText uppercase⟩]

/-- A filter that is known by its name and its number of arguments only. It may stand in a
template, but the template cannot be rendered. -/
def known (name : String) (least most : Nat) : Filter :=
  ⟨name, least, most, fun _ _ => .error (.unavailable name)⟩

/-- The filters that cannot be applied. -/
def others : List Filter :=
  [known "abs" 0 0, known "at_least" 1 1, known "at_most" 1 1, known "capitalize" 0 0,
    known "ceil" 0 0, known "compact" 0 1, known "date" 1 1, known "divided_by" 1 1,
    known "downcase" 0 0, known "escape" 0 0, known "escape_once" 0 0, known "floor" 0 0,
    known "map" 1 1, known "modulo" 1 1, known "newline_to_br" 0 0, known "remove" 1 1,
    known "remove_first" 1 1, known "replace" 1 2, known "replace_first" 1 2,
    known "round" 0 1, known "slice" 1 2, known "sort" 0 1, known "sort_natural" 0 1,
    known "split" 1 1, known "strip_html" 0 0, known "strip_newlines" 0 0,
    known "truncatewords" 0 2, known "uniq" 0 0, known "url_decode" 0 0,
    known "url_encode" 0 0, known "where" 1 2]

/-- All filters. -/
def all : List Filter := available ++ others

/-- The filter with a name. -/
def find? (name : String) : Option Filter := all.find? fun filter => filter.name = name

/-- The names of all filters, in alphabetical order. -/
def names : List String := (all.map Filter.name).mergeSort fun left right => left ≤ right

end Filter

end MessageTemplate.Engine
