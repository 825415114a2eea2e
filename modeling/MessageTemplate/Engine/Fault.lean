import MessageTemplate.Engine.Element

/-! # Why the engine refuses a template -/

namespace MessageTemplate.Engine

/-- Why the engine refuses a template: an output or a tag cannot be read, a tag or a filter is not
known, a filter has the wrong arguments, a tag has the wrong tokens, or a block is not closed.
Most causes quote a line of the template. -/
inductive Fault where
  | unreadable (line : String)
  | unknownTag (line name : String)
  | unknownFilter (name : String)
  | wrongArguments (filter : String)
  | unexpected (line expected : String)
  | unclosed (line name : String)
  deriving DecidableEq, Repr

/-- The tags that stand alone, in alphabetical order. -/
def tagNames : List String :=
  ["assign", "break", "continue", "cycle", "decrement", "include", "increment", "render"]

/-- The tags that open a block, in alphabetical order. -/
def blockNames : List String :=
  ["capture", "case", "comment", "for", "if", "ifchanged", "raw", "tablerow", "unless"]

/-- A line of a template with what is wrong with it. -/
def quoted (line problem : String) : String :=
  "in the line\n  | " ++ line ++ "\n  = " ++ problem

/-- Names between commas. -/
def listed (names : List String) : String := ", ".intercalate names

/-- The wording of a fault, given the names of all filters. -/
def Fault.message (filterNames : List String) : Fault → String
  | unreadable line => quoted line "expected an output or a tag"
  | unknownTag line name =>
    quoted line "Unknown tag." ++ "\n  with:\n    requested=" ++ name ++
      "\n    available tags=" ++ listed tagNames ++
      "\n    available blocks=" ++ listed blockNames
  | unknownFilter name =>
    "Unknown filter\n  with:\n    requested filter=" ++ name ++
      "\n    available filters=" ++ listed filterNames
  | wrongArguments filter => "Wrong number of arguments\n  with:\n    filter=" ++ filter
  | unexpected line expected => quoted line (expected ++ " expected.")
  | unclosed line name => quoted line ("Unclosed block. \x7b% end" ++ name ++ " %\x7d tag expected.")

/-- The first line of a text. -/
def firstLine (text : List Char) : List Char := text.takeWhile (· ≠ '\n')

/-- The line of a template that a place lies on. -/
def lineAt (template : List Char) (place : Nat) : String :=
  let before := template.take (template.length - place)
  let start := (before.reverse.takeWhile (· ≠ '\n')).reverse
  String.ofList (start ++ firstLine (template.drop before.length))

/-- The part of the line of a place that starts no earlier than another place. -/
def lineFrom (template : List Char) (start place : Nat) : String :=
  lineAt (template.drop (template.length - start)) place

end MessageTemplate.Engine
