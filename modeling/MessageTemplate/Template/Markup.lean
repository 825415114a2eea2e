import MessageTemplate.Template.Node
import MessageTemplate.Template.TopLevel

/-! # The markup of tags

What stands behind the name of a tag that opens a loop, assigns a value, captures a text or lists
the values of a branch. -/

namespace MessageTemplate.Template

open Text

/-- Takes a name from the start of a text. -/
def takeName? : List Char → Option (List Char × List Char)
  | [] => none
  | c :: rest =>
    if isNameStart c then some (c :: rest.takeWhile isNameChar, rest.dropWhile isNameChar)
    else none

/-- Takes blank characters, at least one, from the start of a text. -/
def takeBlanks? (text : List Char) : Option (List Char) :=
  match text with
  | [] => none
  | c :: rest => if isBlank c then some (trimStart rest) else none

/-- What a loop tag says: the name of the iterator, the collection and the parameters. -/
structure LoopHeader where
  iterator : String
  collection : Collection
  params : String
  deriving DecidableEq, Repr

/-- Takes a collection: from an opening parenthesis to the first closing one, or else up to the
next blank. -/
def takeCollection (text : List Char) : List Char × List Char :=
  let word := (text.takeWhile fun c => !isBlank c, text.dropWhile fun c => !isBlank c)
  match text with
  | '(' :: rest =>
    match breakAt ')' rest with
    | some (inner, after) => ('(' :: inner ++ [')'], after)
    | none => word
  | _ => word

/-- The inside of a text in parentheses. -/
def insideParentheses? : List Char → Option (List Char)
  | '(' :: rest => if rest.getLast? = some ')' then some rest.dropLast else none
  | _ => none

/-- Reads a collection: two bounds around two dots in parentheses, or else an expression. -/
def readCollection (text : List Char) : Collection :=
  match (insideParentheses? text).bind (breakOn ['.', '.']) with
  | some (first, last) => .range (String.ofList (trim first)) (String.ofList (trim last))
  | none => .expression (String.ofList text)

/-- Reads the markup of a loop tag: `item in collection` and parameters. -/
def loopHeader? (markup : String) : Option LoopHeader := do
  let (iterator, text) ← takeName? markup.toList
  let text ← takeBlanks? text
  let text ← ['i', 'n'].isPrefixOf? text
  let text ← takeBlanks? text
  if text.isEmpty then none
  else
    let (collection, params) := takeCollection text
    return ⟨String.ofList iterator, readCollection collection, String.ofList (trim params)⟩

/-- Reads the markup of an assignment: a name, an equals sign and an expression. -/
def assignment? (markup : String) : Option (String × String) := do
  let (target, text) ← takeName? markup.toList
  match trimStart text with
  | '=' :: c :: rest => some (String.ofList target, String.ofList (trim (c :: rest)))
  | _ => none

/-- Reads the markup of a capture: a name, in quotes or not. -/
def captureTarget? (markup : String) : Option String :=
  let target := dropEndWhile isQuote (markup.toList.dropWhile isQuote)
  if isName target then some (String.ofList target) else none

/-- The values that a branch stands for, between commas or the word `or`. -/
def whenValues (markup : String) : List String :=
  let parts := (splitTopLevel ',' markup.toList).flatMap (splitTopLevelText " or ".toList)
  (parts.map fun part => String.ofList (trim part)).filter (· ≠ "")

end MessageTemplate.Template
