import MessageTemplate.Text.Whole

/-! # Variable paths

A path names a value inside the data of a message, such as `payload.items[0].name`. It is kept as
text; its meaning is a list of segments, each a property or the position in an array. -/

namespace MessageTemplate

open Text

/-- One step of a path. -/
inductive Segment where
  | key (name : String)
  | index (position : Nat)
  deriving DecidableEq, Repr

namespace Segment

/-- The step as a property name; a position becomes its digits. -/
def asKey : Segment → String
  | key name => name
  | index position => toString position

/-- The property name, if the step is a property. -/
def key? : Segment → Option String
  | key name => some name
  | index _ => none

/-- The step that stands between brackets. Digits are a position; quotes around a name are left
out; anything else is a property of that very name. -/
def ofBracket? (inner : List Char) : Option Segment :=
  match count? inner with
  | some position => some (index position)
  | none =>
    match inner with
    | [] => none
    | quote :: rest =>
      if (quote = '"' || quote = '\'') && rest.getLast? = some quote then
        some (key (String.ofList rest.dropLast))
      else some (key (String.ofList inner))

/-- Characters that a property name may hold where it is written as it is. -/
def isCleanChar (c : Char) : Bool :=
  !isBlank c && c ≠ '.' && c ≠ '[' && c ≠ ']'

/-- Whether a step can be written as it is: a position, or a property name that is not empty and
holds neither blanks nor the characters that paths are cut at. -/
def isClean : Segment → Bool
  | key name => name ≠ "" && name.toList.all isCleanChar
  | index _ => true

end Segment

namespace Path

/-- The steps of a run of brackets, which must reach to the end of the text. -/
def brackets? : List Char → Option (List Segment)
  | [] => some []
  | mark :: rest =>
    if mark = '[' then
      match _h : breakAt ']' rest with
      | none => none
      | some (inner, after) => do
        let segment ← Segment.ofBracket? (trim inner)
        let others ← brackets? after
        return segment :: others
    else none
termination_by text => text.length
decreasing_by
  have whole := (breakAt_eq_some _h).1
  simp only [whole, List.length_cons, List.length_append]
  omega

/-- The steps of the text between two dots: a property name, brackets, or a name and brackets
after it. -/
def part? (part : List Char) : Option (List Segment) :=
  let name := part.takeWhile (· ≠ '[')
  if part.isEmpty || name.contains ']' then none
  else
    (brackets? (part.dropWhile (· ≠ '['))).map fun others =>
      if name.isEmpty then others else .key (String.ofList name) :: others

/-- The steps of the texts between dots. -/
def parts? (text : List Char) : Option (List Segment) :=
  ((text.splitOn '.').mapM part?).map List.flatten

/-- The steps of a path. A path does not start with a bracket, nothing between two dots is empty,
and every bracket is closed. -/
def split? (path : String) : Option (List Segment) :=
  let text := trim path.toList
  if text.head? = some '[' then none
  else parts? text

/-- Writes steps, with a dot before a property unless nothing has been written yet. -/
def joinFrom : (started : Bool) → List Segment → List Char
  | _, [] => []
  | started, .key name :: rest =>
    let text := name.toList
    (if started then '.' :: text else text) ++ joinFrom (started || !text.isEmpty) rest
  | _, .index position :: rest => '[' :: Nat.toDigits 10 position ++ ']' :: joinFrom true rest

/-- The path of a list of steps. -/
def join (segments : List Segment) : String :=
  String.ofList (joinFrom false segments)

/-- The path in its usual form, with dots before properties and brackets around positions. A text
that is no path stays as it is, blanks at its ends left out. -/
def normalize (path : String) : String :=
  match split? path with
  | some segments => join segments
  | none => trimmed path

/-- The properties among some steps. -/
def propertySegments (segments : List Segment) : List Segment :=
  segments.filter fun segment => segment.key?.isSome

/-- The path without its positions. -/
def stripIndices (path : String) : String :=
  match split? path with
  | some segments => join (propertySegments segments)
  | none => trimmed path

/-- The property names of a path that has at least one. -/
def keys? (path : String) : Option (List String) :=
  match (split? path).map fun segments => segments.filterMap Segment.key? with
  | some [] => none
  | keys => keys

/-- Whether a text is a path whose steps can all be written as they are. -/
def isClean (path : String) : Bool :=
  (split? path).any fun segments => segments.all Segment.isClean

/-- The number of texts between dots. -/
def depth (path : String) : Nat :=
  path.toList.count '.' + 1

/-- Whether a path leads on from another one, through a property or into an array. -/
def isStrictPrefix (start path : String) : Bool :=
  match start.toList.isPrefixOf? path.toList with
  | some ('.' :: _) => true
  | some ('[' :: _) => true
  | _ => false

end Path

end MessageTemplate
