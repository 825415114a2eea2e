import MessageTemplate.Text.Class
import MessageTemplate.Text.Basic

/-! # Files with variables

Each line of such a file gives a variable a value. A value may be quoted, with single quotes as it
stands or with double quotes around escapes and references to other variables, and a quoted value
may go on over several lines. Comments start with a number sign at the start of a line or behind a
blank. Reading stops at the first line that is not understood, and the lines before it count. -/

namespace MessageTemplate.EnvFile

open Text

/-- Variables with their values. -/
abbrev Environment := List (String × String)

/-- The value of a variable. -/
def Environment.value? (environment : Environment) (name : String) : Option String :=
  List.lookup name environment

/-! ## Lines -/

/-- Where a scan for the end of a line stands: outside of quotes, behind a blank, or in quotes;
behind a backslash in each of these. -/
inductive LineState where
  | plain
  | blank
  | escaped
  | single
  | singleEscaped
  | double
  | doubleEscaped
  deriving DecidableEq, Repr

/-- The state after a character outside of quotes that follows no blank. -/
def LineState.outside (c : Char) : LineState :=
  if c = '\\' then .escaped else if c = '"' then .double else if c = '\'' then .single else .plain

/-- The state after a character. -/
def LineState.next (state : LineState) (c : Char) : LineState :=
  match state with
  | .plain => if isBlank c && c ≠ '\n' && c ≠ '\r' then .blank else .outside c
  | .blank => .outside c
  | .escaped => .plain
  | .single => if c = '\\' then .singleEscaped else if c = '\'' then .plain else .single
  | .singleEscaped => .single
  | .double => if c = '\\' then .doubleEscaped else if c = '"' then .plain else .double
  | .doubleEscaped => .double

/-- Scans a line. The result is the text up to a comment, and the state at the end unless there is
a comment. -/
def scanLine (state : LineState) : List Char → List Char × Option LineState
  | [] => ([], some state)
  | c :: rest =>
    if state = .blank && c = '#' then ([], none)
    else
      let (kept, ending) := scanLine (state.next c) rest
      (c :: kept, ending)

/-- A text without the line break at its end. -/
def dropLineBreak (line : List Char) : List Char :=
  match line.reverse with
  | '\n' :: '\r' :: rest => rest.reverse
  | '\n' :: rest => rest.reverse
  | _ => line

/-- The lines of a text, each with its line break. -/
def splitLines : List Char → List (List Char)
  | [] => []
  | c :: rest =>
    match splitLines rest with
    | [] => [[c]]
    | line :: others => if c = '\n' then [c] :: line :: others else (c :: line) :: others

/-- Puts together the lines that belong to one value. A value that is not complete at the end of
the file is a fault. -/
def joinLines (pending : List Char) (state : LineState) :
    List (List Char) → List (Option (List Char))
  | [] => if pending.isEmpty then [] else [none]
  | line :: rest =>
    if (trimStart (pending ++ line)).head? = some '#' then some [] :: joinLines [] .plain rest
    else
      match scanLine state line with
      | (kept, none) => some (pending ++ kept) :: joinLines [] .plain rest
      | (_, some .plain) => some (dropLineBreak (pending ++ line)) :: joinLines [] .plain rest
      | (_, some ending) => joinLines (pending ++ line) ending rest

/-! ## Values -/

/-- Where a scan of a value stands: in quotes, if a double quote is open; and what the next
characters belong to. -/
inductive ValueState where
  | plain (quoted : Bool)
  | single
  | escaped (quoted : Bool)
  | reference (quoted : Bool) (name : List Char)
  | bracedReference (quoted : Bool) (name : List Char)
  | done

/-- The character that an escape stands for. -/
def unescape? (c : Char) : Option Char :=
  if c = 'n' then some '\n'
  else if ['\\', '\'', '"', '$', ' '].contains c then some c
  else none

/-- What a reference stands for; nothing, if there is no such variable. -/
def resolve (environment : Environment) (name : List Char) : List Char :=
  ((environment.value? (String.ofList name)).getD "").toList

/-- The rest of a value. Outside of quotes it ends with a blank, behind which only a comment may
stand. -/
def readValue? (environment : Environment) : ValueState → List Char → Option (List Char)
  | .plain quoted, [] => if quoted then none else some []
  | .single, [] => none
  | .escaped quoted, [] => if quoted then none else some []
  | .reference quoted name, [] => if quoted then none else some (resolve environment name)
  | .bracedReference _ _, [] => none
  | .done, [] => some []
  | .plain quoted, c :: rest =>
    if c = '$' then readValue? environment (.reference quoted []) rest
    else if c = '\\' then readValue? environment (.escaped quoted) rest
    else if c = '"' then readValue? environment (.plain !quoted) rest
    else if quoted then (readValue? environment (.plain true) rest).map (c :: ·)
    else if c = '\'' then readValue? environment .single rest
    else if c = ' ' || c = '\t' then readValue? environment .done rest
    else (readValue? environment (.plain false) rest).map (c :: ·)
  | .single, c :: rest =>
    if c = '\'' then readValue? environment (.plain false) rest
    else (readValue? environment .single rest).map (c :: ·)
  | .escaped quoted, c :: rest => do
    let meant ← unescape? c
    let others ← readValue? environment (.plain quoted) rest
    return meant :: others
  | .reference quoted name, c :: rest =>
    if isAlphanumeric c then readValue? environment (.reference quoted (name ++ [c])) rest
    else if c = '\x7b' && name.isEmpty then readValue? environment (.bracedReference quoted []) rest
    else if c = '$' then
      (readValue? environment (.reference quoted []) rest).map (resolve environment name ++ ·)
    else
      (readValue? environment (.plain quoted) rest).map (resolve environment name ++ c :: ·)
  | .bracedReference quoted name, c :: rest =>
    if c = '\x7d' then
      (readValue? environment (.plain quoted) rest).map (resolve environment name ++ ·)
    else readValue? environment (.bracedReference quoted (name ++ [c])) rest
  | .done, c :: rest =>
    if c = ' ' || c = '\t' then readValue? environment .done rest
    else if c = '#' then some []
    else none

/-! ## Assignments -/

/-- The first character of the name of a variable. -/
def startsVariable (c : Char) : Bool := c.isAlpha || c = '_'

/-- The other characters of the name of a variable. -/
def isVariableChar (c : Char) : Bool := c.isAlphanum || c = '_' || c = '.'

/-- Takes the name of a variable and the blanks behind it. -/
def takeVariable? (text : List Char) : Option (String × List Char) :=
  match text with
  | [] => none
  | c :: _ =>
    if startsVariable c then
      some (String.ofList (text.takeWhile isVariableChar),
        trimStart (text.dropWhile isVariableChar))
    else none

/-- Takes the target of an assignment and its equals sign. The word `export` may stand in front
of the target. -/
def takeTarget? (text : List Char) : Option (String × List Char) := do
  let (name, rest) ← takeVariable? text
  match rest with
  | '=' :: value => return (name, value)
  | _ =>
    if name = "export" then
      let (name, rest) ← takeVariable? rest
      let value ← ['='].isPrefixOf? rest
      return (name, value)
    else none

/-- Reads a line: nothing, or a variable with its value. -/
def readLine? (environment : Environment) (line : List Char) :
    Option (Option (String × String)) :=
  let text := trimStart line
  if text.isEmpty || text.head? = some '#' then some none
  else do
    let (name, rest) ← takeTarget? text
    let value := trimStart rest
    if value.isEmpty || value.head? = some '#' then return some (name, "")
    else return some (name, String.ofList (← readValue? environment (.plain false) value))

/-- Adds the variables of some lines to those of the lines before, unless they have a value
already. -/
def readLines (environment found : Environment) : List (Option (List Char)) → Environment
  | [] => found
  | none :: _ => found
  | some line :: rest =>
    match readLine? (environment ++ found) line with
    | none => found
    | some none => readLines environment found rest
    | some (some entry) =>
      if (Environment.value? (environment ++ found) entry.1).isSome then
        readLines environment found rest
      else readLines environment (found ++ [entry]) rest

/-- The environment with the variables of a file that it does not have itself. Of two lines for
one variable the first one counts. -/
def load (environment : Environment) (text : String) : Environment :=
  environment ++
    readLines environment [] (joinLines [] .plain (splitLines (withoutMark text.toList)))

end MessageTemplate.EnvFile
