import MessageTemplate.Keyed
import MessageTemplate.Path

/-! # Names that a template binds itself

A scope is the set of names bound at a place of a template: loop iterators, and the targets of
assignments, captures and counters. A name also binds every path that leads on from it. -/

namespace MessageTemplate.Analysis

/-- A set of bound names. -/
structure Scope where
  names : Keyed Unit
  deriving DecidableEq

namespace Scope

/-- Nothing is bound. -/
def empty : Scope := ⟨[]⟩

/-- One more name is bound. -/
def bind (scope : Scope) (name : String) : Scope :=
  ⟨Keyed.insert name () scope.names⟩

/-- The scope of a list of names. -/
def ofList (names : List String) : Scope :=
  names.foldl bind empty

/-- Whether a name is in the set. -/
def contains (scope : Scope) (name : String) : Bool :=
  Keyed.has name scope.names

/-- Whether a path reads a bound name or something below it. -/
def binds (scope : Scope) (path : String) : Bool :=
  scope.names.keys.any fun name => path = name || Path.isStrictPrefix name path

/-- The number of names. -/
def size (scope : Scope) : Nat := scope.names.length

/-- The name that holds the state of a loop inside its body. -/
def loopState : String := "forloop"

/-- The name that holds the state of a table loop inside its body. -/
def tableLoopState : String := "tablerowloop"

end Scope

end MessageTemplate.Analysis
