import MessageTemplate.Analysis.Scope
import MessageTemplate.Schema.Basic
import MessageTemplate.StepPath

/-! # Which names are valid

A name is judged in this order: a bound name is of no interest; a name in the phrase
namespace is valid; a text that is no path is invalid; a path of one segment is valid only as the
content placeholder; any other path is valid if the schema allows it or, without a schema, if it
lies in a namespace that may hold any key or is an events collection. -/

namespace MessageTemplate.Analysis

/-- The names that get special treatment. -/
structure Options where
  contentPlaceholder : String
  phraseNamespace : String
  suggestPayload : Bool
  deriving DecidableEq, Repr

/-- The usual options. -/
def Options.standard : Options := ⟨"content", "t", true⟩

/-- Why a name is invalid. -/
inductive NameIssue where
  | blank
  | malformed
  | unscoped (suggestPayload : Bool)
  | unavailable
  | undeclared
  deriving DecidableEq, Repr

/-- The wording of an issue with a name. -/
def NameIssue.message (name : String) : NameIssue → String
  | blank =>
    "Variable '" ++ name ++ "' contains whitespace; variable paths cannot contain spaces"
  | malformed => "'" ++ name ++ "' is not a valid variable path"
  | unscoped suggestPayload =>
    "Variable '" ++ name ++ "' must be namespaced" ++
      if suggestPayload then ", did you mean 'payload." ++ name ++ "'?" else ""
  | unavailable =>
    "Variable '" ++ name ++
      "' is not available; use the 'payload' or 'subscriber.data' namespace"
  | undeclared => "Variable '" ++ name ++ "' is not defined in the variable schema"

/-- What a name turns out to be. -/
inductive Verdict where
  | bound
  | valid
  | invalid (issue : NameIssue)
  deriving DecidableEq, Repr

/-- Whether a name is the key of a phrase, a text that is looked up per language. -/
def isPhraseKey (options : Options) (name : String) : Bool :=
  (options.phraseNamespace.toList ++ ['.']).isPrefixOf name.toList

/-- The verdict on a name that is not bound. -/
def judgeFree (schema : Option Schema) (options : Options) (name : String) : Verdict :=
  if isPhraseKey options name then .valid
  else
    match Path.split? name with
    | none => .invalid .malformed
    | some [_] =>
      if name = options.contentPlaceholder then .valid
      else .invalid (.unscoped options.suggestPayload)
    | some _ =>
      match schema with
      | none =>
        if StepPath.isOpen name || StepPath.isEvents name then .valid else .invalid .unavailable
      | some schema => if schema.allows name then .valid else .invalid .undeclared

/-- The verdict on a name in a scope. -/
def judge (schema : Option Schema) (options : Options) (scope : Scope) (name : String) :
    Verdict :=
  if scope.binds name then .bound else judgeFree schema options name

end MessageTemplate.Analysis
