import MessageTemplate.Path
import MessageTemplate.Decimal.Reading
import MessageTemplate.Template.TopLevel

/-! # Expressions

An expression is a base with a chain of filters, as in `payload.name | default: 'you'`. This
module reads filter chains and arguments, and finds the paths that an expression refers to. -/

namespace MessageTemplate.Template

open Text

/-- An argument of a filter, by its written form. -/
inductive Argument where
  | text (value : String)
  | number (value : Float)
  | boolean (value : Bool)
  | nil
  | reference (path : String)
  | keyword (name : String) (value : Argument)
  deriving Inhabited

/-- A filter of a chain. -/
structure FilterCall where
  name : String
  arguments : List Argument
  deriving Inhabited

namespace Argument

/-- The text of a quoted argument. -/
def text? : Argument → Option String
  | text value => some value
  | _ => none

/-- The path of an argument that is a reference. -/
def reference? : Argument → Option String
  | reference path => some path
  | _ => none

/-- Whether the argument is written without a name. -/
def isPositional : Argument → Bool
  | keyword _ _ => false
  | _ => true

/-- What is passed: for a named argument its value. -/
def passed : Argument → Argument
  | keyword _ value => value
  | argument => argument

end Argument

/-- The inside of a text in quotes. -/
def unquote? : List Char → Option (List Char)
  | [] => none
  | quote :: rest =>
    if isQuote quote && rest.getLast? = some quote then some rest.dropLast else none

/-- The literal argument that a trimmed text stands for, if it is one. -/
def literalArgument? (text : List Char) : Option Argument :=
  match unquote? text with
  | some inner => some (.text (String.ofList inner))
  | none =>
    match Decimal.float? text with
    | some value => some (.number value)
    | none =>
      match String.ofList text with
      | "true" => some (.boolean true)
      | "false" => some (.boolean false)
      | "nil" => some .nil
      | "null" => some .nil
      | "empty" => some .nil
      | "blank" => some .nil
      | _ => none

/-- An argument without a name: a literal or else a reference. -/
def operand (text : List Char) : Argument :=
  let text := trim text
  (literalArgument? text).getD (.reference (Path.normalize (String.ofList text)))

/-- Whether a text starts as a name does. -/
def startsName (text : List Char) : Bool :=
  match text with
  | c :: _ => isNameStart c
  | [] => false

/-- Reads an argument. It has a name if exactly one colon outside of quotes and brackets splits
it and what stands before the colon starts as a name does. -/
def readArgument (text : List Char) : Argument :=
  match literalArgument? (trim text) with
  | some literal => literal
  | none =>
    match splitTopLevel ':' (trim text) with
    | [name, value] =>
      if startsName (trim name) then .keyword (String.ofList (trim name)) (operand value)
      else operand text
    | _ => operand text

/-- Reads a filter: a name, and after a colon the arguments between commas. -/
def readFilter (segment : List Char) : FilterCall :=
  let segment := trim segment
  let (name, arguments) := match breakAt ':' segment with
    | some (name, arguments) => (trim name, arguments)
    | none => (segment, [])
  { name := String.ofList name
    arguments :=
      if (trim arguments).isEmpty then [] else (splitTopLevel ',' arguments).map readArgument }

/-- Splits an expression into its base and its filters. A filter without a name is left out. -/
def splitFilters (expression : String) : String × List FilterCall :=
  match splitTopLevel '|' expression.toList with
  | [] => ("", [])
  | base :: segments =>
    (String.ofList (trim base), (segments.map readFilter).filter fun call => call.name ≠ "")

/-- Whether an expression is a literal: a quoted text, a number, a literal word or a range. -/
def isLiteral (expression : String) : Bool :=
  let text := trim expression.toList
  (literalArgument? text).isSome || (text.head? = some '(' && occurs ['.', '.'] text)

/-- Whether a blank character stands outside of quotes. -/
def hasBlankFrom (quote : Option Char) : List Char → Bool
  | [] => false
  | c :: rest => (quote.isNone && isBlank c) || hasBlankFrom (nextQuote quote c) rest

/-- Whether an expression, trimmed, has a blank character outside of quotes. -/
def hasUnquotedBlank (expression : String) : Bool :=
  hasBlankFrom none (trim expression.toList)

/-! ## References -/

/-- Words that are not paths: operators, literals and parts of tags. -/
def keywords : List String :=
  ["and", "or", "not", "contains", "true", "false", "nil", "null", "empty", "blank", "in",
    "reversed", "with", "as", "for"]

/-- Characters that go on a word inside an expression. -/
def isReferenceChar (c : Char) : Bool :=
  isAlphanumeric c || c = '_' || c = '-'

/-- Whether a word cannot start behind this character. -/
def joinsWord (c : Char) : Bool :=
  isAlphanumeric c || c = '_'

/-- Splits behind the first closing bracket outside of quotes; the first part holds the
bracket. -/
def closeBracket? (quote : Option Char) : List Char → Option (List Char × List Char)
  | [] => none
  | c :: rest =>
    if quote.isNone && c = ']' then some ([c], rest)
    else (closeBracket? (nextQuote quote c) rest).map fun (inner, after) => (c :: inner, after)

theorem closeBracket?_eq_some {quote : Option Char} {text inner after : List Char}
    (found : closeBracket? quote text = some (inner, after)) : text = inner ++ after := by
  induction text generalizing quote inner with
  | nil => simp [closeBracket?] at found
  | cons c rest ih =>
    rw [closeBracket?] at found
    split at found
    · obtain ⟨rfl, rfl⟩ := Prod.mk.inj (Option.some.inj found)
      rfl
    · obtain ⟨⟨first, last⟩, more, joined⟩ := Option.map_eq_some_iff.mp found
      obtain ⟨rfl, rfl⟩ := Prod.mk.inj joined
      rw [ih more]
      rfl

/-- Takes what goes on a path: properties behind dots, and brackets. -/
def takeSteps : List Char → List Char × List Char
  | [] => ([], [])
  | mark :: rest =>
    if mark = '.' then
      match rest with
      | [] => ([], mark :: rest)
      | c :: others =>
        if isReferenceChar c then
          let word := others.takeWhile isReferenceChar
          let (steps, after) := takeSteps (others.dropWhile isReferenceChar)
          (mark :: c :: (word ++ steps), after)
        else ([], mark :: rest)
    else if mark = '[' then
      match _h : closeBracket? none rest with
      | some (inner, tail) =>
        let (steps, after) := takeSteps tail
        (mark :: (inner ++ steps), after)
      | none => ([], mark :: rest)
    else ([], mark :: rest)
termination_by text => text.length
decreasing_by
  · have := (List.dropWhile_sublist isReferenceChar : List.Sublist _ others).length_le
    simp only [List.length_cons]
    omega
  · have := closeBracket?_eq_some _h
    simp only [this, List.length_cons, List.length_append]
    omega

theorem takeSteps_length (text : List Char) : (takeSteps text).2.length ≤ text.length := by
  fun_induction takeSteps text with
  | case1 => exact Nat.le_refl _
  | case2 => exact Nat.le_refl _
  | case3 c others _ word steps after taken ih =>
    have := (List.dropWhile_sublist isReferenceChar : List.Sublist _ others).length_le
    simp only [taken] at ih
    simp only [List.length_cons]
    omega
  | case4 => exact Nat.le_refl _
  | case5 rest inner tail found steps after taken _ ih =>
    have := closeBracket?_eq_some found
    simp only [taken] at ih
    simp only [this, List.length_cons, List.length_append]
    omega
  | case6 => exact Nat.le_refl _
  | case7 => exact Nat.le_refl _

/-- Takes a path whose first character has been seen: the rest of its first word and what goes
on from there. -/
def takePath (text : List Char) : List Char × List Char :=
  let (steps, after) := takeSteps (text.dropWhile isReferenceChar)
  (text.takeWhile isReferenceChar ++ steps, after)

theorem takePath_length (text : List Char) : (takePath text).2.length ≤ text.length := by
  have := (List.dropWhile_sublist isReferenceChar : List.Sublist _ text).length_le
  have := takeSteps_length (text.dropWhile isReferenceChar)
  simp only [takePath]
  omega

/-- Whether a text is a label, that is, whether a colon comes next. -/
def isLabelled (after : List Char) : Bool :=
  (trimStart after).head? = some ':'

/-- The paths in the rest of a text, given the character before it. A path starts with a letter
or an underscore that does not go on a word. Quoted texts, keywords and labels are skipped. -/
def references (before : Option Char) : List Char → List String
  | [] => []
  | c :: rest =>
    if isQuote c then references (some c) ((rest.dropWhile (· ≠ c)).drop 1)
    else if !isNameStart c || before.any joinsWord then references (some c) rest
    else
      let path := String.ofList (c :: (takePath rest).1)
      let others := references (c :: (takePath rest).1).getLast? (takePath rest).2
      if isLabelled (takePath rest).2 || keywords.contains path then others
      else Path.normalize path :: others
termination_by text => text.length
decreasing_by
  · have := (List.dropWhile_sublist (· ≠ c) : List.Sublist _ rest).length_le
    simp only [List.length_drop, List.length_cons]
    omega
  · simp
  · have := takePath_length rest
    simp only [List.length_cons]
    omega

/-- The text of a filter in which references are looked for: its arguments. -/
def argumentText? (segment : List Char) : Option (List Char) :=
  (breakAt ':' segment).map Prod.snd

/-- The paths that an expression refers to, in the order of the text. -/
def identifiers (expression : String) : List String :=
  match splitTopLevel '|' expression.toList with
  | [] => []
  | base :: segments =>
    references none base ++ (segments.filterMap argumentText?).flatMap (references none)

end MessageTemplate.Template
