import MessageTemplate.Json.Writer

/-! # Sentences of names

The elements of a collection are named by a text in each of them, and the names are put together
to a sentence. When there are more names than may be shown, the rest of them are counted. -/

namespace MessageTemplate.Engine

/-- The value that a chain of keys leads to through objects. -/
def follow? (value : Json) (keys : List String) : Option Json :=
  keys.foldlM (fun value key => value.member? key) value

/-- The name that a value gives: a text is a name itself, nothing gives none. -/
def nameOf? : Json → Option String
  | .string text => some text
  | .null => none
  | value => some value.text

/-- The elements of a value: the items of an array, no elements for nothing, or else the value
alone. -/
def elementsOf : Json → List Json
  | .array items => items
  | .null => []
  | value => [value]

/-- The keys of a key path. -/
def keyPathKeys (path : String) : List String :=
  (path.toList.splitOn '.').map String.ofList

/-- The name of an element, read at a key path if there is one. -/
def elementName? (keyPath : Option String) (element : Json) : Option String :=
  match keyPath with
  | some path => (follow? element (keyPathKeys path)).bind nameOf?
  | none => nameOf? element

/-- The names of the elements of a value. Elements without a name are left out. -/
def elementNames (keyPath : Option String) (value : Json) : List String :=
  (elementsOf value).filterMap (elementName? keyPath)

/-- What names that are not shown are called. -/
def restWord (count : Nat) (more : Option String) : String :=
  more.getD (if count = 1 then "other" else "others")

/-- A sentence of all names. -/
def enumerated (names : List String) : String :=
  match names.getLast? with
  | none => ""
  | some last =>
    if names.length = 1 then last else ", ".intercalate names.dropLast ++ " and " ++ last

/-- A sentence of the first names and the number of the others. -/
def abridged (names : List String) (limit : Nat) (more : Option String) : String :=
  let left := names.length - limit
  let rest := toString left ++ " " ++ restWord left more
  if limit = 0 then rest else ", ".intercalate (names.take limit) ++ " and " ++ rest

/-- The sentence of some names. At most `limit` names are shown, but a single name always is. -/
def sentence (names : List String) (limit : Option Nat) (more : Option String) : String :=
  if names.length ≤ max (limit.getD names.length) 1 then enumerated names
  else abridged names (limit.getD names.length) more

/-- How many names a digest shows. -/
def digestLimit : Nat := 2

/-! ## What a sentence says

A sentence puts its parts together: the names that it shows, and behind them the number of the
others if there are others. The number is a difference and the names are a part of a list; both
are to be read off where they exist. -/

/-- Parts put together: a comma behind each but the last two, and a word before the last. -/
def enumeration : List String → String
  | [] => ""
  | [only] => only
  | [next, last] => next ++ " and " ++ last
  | first :: next :: rest => first ++ ", " ++ enumeration (next :: rest)

/-- The part of a sentence that counts the names that are not shown. -/
def countOfRest (rest : List String) (more : Option String) : List String :=
  if rest.isEmpty then [] else [toString rest.length ++ " " ++ restWord rest.length more]

/-- The difference of two numbers, if it is one. -/
def difference? (whole part : Nat) : Option Nat :=
  if part ≤ whole then some (whole - part) else none

/-- The first names of a list, if it has as many. -/
def firstNames? (names : List String) (count : Nat) : Option (List String) :=
  if count ≤ names.length then some (names.take count) else none

/-- The sentence of some names, unless more names are to be taken off than there are. -/
def sentence? (names : List String) (limit : Option Nat) (more : Option String) : Option String :=
  let limit := limit.getD names.length
  match names with
  | [] => some ""
  | [only] => some only
  | _ =>
    if names.length ≤ limit then some (enumerated names)
    else do
      let left ← difference? names.length limit
      let shown ← firstNames? names limit
      let rest := toString left ++ " " ++ restWord left more
      return if limit = 0 then rest else ", ".intercalate shown ++ " and " ++ rest

end MessageTemplate.Engine
