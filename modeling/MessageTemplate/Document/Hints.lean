import MessageTemplate.Document.Outputs
import MessageTemplate.Example.Builder
import MessageTemplate.Template.Expression

/-! # What a document tells about its data

Collections that nodes are repeated for are arrays, with the declared number of elements, and the
paths of show conditions are flags. -/

namespace MessageTemplate.Document

/-- The path of an attribute that may be wrapped into an output already. -/
def bareExpression (value : String) : String :=
  let text := Text.trim value.toList
  let text := Text.dropRepeatedEnd outputClosing (Text.dropRepeated outputOpening text)
  let text := Text.dropEndWhile (· = '-') (text.dropWhile (· = '-'))
  (Template.splitFilters (String.ofList text)).1

/-- The collections and the flags of a document, each in the order of the document. -/
structure Hints where
  arrays : List Example.DeclaredArray
  flags : List String
  deriving DecidableEq, Repr

namespace Hints

/-- No hints. -/
def empty : Hints := ⟨[], []⟩

/-- Adds a collection, unless its path is empty or known. -/
def addArray (hints : Hints) (path : String) (iterations : Nat) : Hints :=
  if path = "" || hints.arrays.any fun array => array.path = path then hints
  else { hints with arrays := hints.arrays ++ [⟨path, iterations⟩] }

/-- Adds a flag, unless its path is empty or known. -/
def addFlag (hints : Hints) (path : String) : Hints :=
  if path = "" || hints.flags.contains path then hints
  else { hints with flags := hints.flags ++ [path] }

/-- Adds what the attributes of a node tell. -/
def addNode (hints : Hints) (defaultIterations : Nat) (node : Node) : Hints :=
  let hints := match node.each? with
    | some each =>
      hints.addArray (bareExpression each) (node.iterations?.getD defaultIterations)
    | none => hints
  match node.showCondition? with
  | some condition => hints.addFlag (bareExpression condition)
  | none => hints

end Hints

mutual

/-- Adds what a node and the nodes in its content tell. -/
def gatherHints (defaultIterations : Nat) (hints : Hints) : Node → Hints
  | ⟨kind, attrs, marks, content, text, extra⟩ =>
    let hints := hints.addNode defaultIterations ⟨kind, attrs, marks, content, text, extra⟩
    match content with
    | some children => gatherAllHints defaultIterations hints children
    | none => hints

/-- Adds what some nodes tell. -/
def gatherAllHints (defaultIterations : Nat) (hints : Hints) : List Node → Hints
  | [] => hints
  | node :: rest => gatherAllHints defaultIterations (gatherHints defaultIterations hints node) rest

end

/-- The hints of a document; a collection without a declared number of elements gets the given
one. -/
def hintsOf (document : Node) (defaultIterations : Nat) : Hints :=
  gatherHints defaultIterations .empty document

end MessageTemplate.Document
