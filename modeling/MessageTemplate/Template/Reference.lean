import MessageTemplate.Template.Expression

/-! # References

A reference is a path as it is written in a template: a name and at least one step, each a property
behind a dot or a position or a quoted key between brackets. Where a template stands inside of a JSON
text, the quotes of a key may be escaped. -/

namespace MessageTemplate.Template

open Text

/-- Characters of a key between quotes. -/
def isKeyChar (c : Char) : Bool :=
  isReferenceChar c || c = ' '

/-- A step of a reference, as it is written. -/
inductive ReferenceStep where
  | property (word : List Char)
  | position (digits : List Char)
  | quoted (escaped : Bool) (quote : Char) (key : List Char)
  deriving DecidableEq

namespace ReferenceStep

/-- A quote with a backslash before it if it is escaped. -/
def mark (escaped : Bool) (quote : Char) : List Char :=
  if escaped then ['\\', quote] else [quote]

/-- The text of a step. -/
def text : ReferenceStep → List Char
  | property word => '.' :: word
  | position digits => '[' :: (digits ++ [']'])
  | quoted escaped quote key => '[' :: (mark escaped quote ++ key ++ mark escaped quote ++ [']'])

/-- Whether the parts of a step are of the right characters. -/
def isWritten : ReferenceStep → Bool
  | property word => !word.isEmpty && word.all isReferenceChar
  | position digits => !digits.isEmpty && digits.all Char.isDigit
  | quoted _ quote key => isQuote quote && key.all isKeyChar

/-- Whether the quotes of a step are not escaped. -/
def isBare : ReferenceStep → Bool
  | quoted escaped _ _ => !escaped
  | _ => true

/-- The step as it stands in a JSON text, where double quotes are escaped. -/
def escape : ReferenceStep → ReferenceStep
  | quoted escaped quote key => quoted (escaped || quote = '"') quote key
  | step => step

theorem isWritten_escape {step : ReferenceStep} (written : step.isWritten = true) :
    step.escape.isWritten = true := by
  cases step <;> exact written

/-- Whether no blank stands in a step. -/
def isSolid : ReferenceStep → Bool
  | quoted _ _ key => key.all isReferenceChar
  | _ => true

end ReferenceStep

/-- A path as it is written. -/
structure Reference where
  start : Char
  word : List Char
  steps : List ReferenceStep
  starts : isNameStart start = true
  plain : word.all isReferenceChar = true
  continued : steps ≠ []
  written : steps.all ReferenceStep.isWritten = true

namespace Reference

/-- The text of steps that follow each other. -/
def textOfSteps (steps : List ReferenceStep) : List Char :=
  steps.flatMap ReferenceStep.text

/-- The text of a reference. -/
def text (reference : Reference) : List Char :=
  reference.start :: (reference.word ++ textOfSteps reference.steps)

/-- The path that the reference stands for. -/
def path (reference : Reference) : String :=
  Path.normalize (String.ofList reference.text)

/-- Whether no blank stands in a reference. -/
def isSolid (reference : Reference) : Bool :=
  reference.steps.all ReferenceStep.isSolid

/-- Whether no quotes of a reference are escaped. -/
def isBare (reference : Reference) : Bool :=
  reference.steps.all ReferenceStep.isBare

/-- The reference as it stands in a JSON text. -/
def escape (reference : Reference) : Reference :=
  { reference with
    steps := reference.steps.map ReferenceStep.escape
    continued := fun empty => reference.continued (List.map_eq_nil_iff.mp empty)
    written := by
      rw [List.all_map, List.all_eq_true]
      exact fun step member =>
        step.isWritten_escape (List.all_eq_true.mp reference.written step member) }

end Reference

/-! ## What may stand around a reference -/

/-- Which quote is open, and whether a bracket is. -/
structure Stance where
  quote : Option Char
  inside : Bool
  deriving DecidableEq

namespace Stance

/-- Neither a quote nor a bracket is open. -/
def free : Stance := ⟨none, false⟩

/-- The stance after a character. -/
def next (stance : Stance) (c : Char) : Stance where
  quote := nextQuote stance.quote c
  inside :=
    if stance.quote.isSome then stance.inside
    else if c = '[' then true
    else if c = ']' then false
    else stance.inside

end Stance

/-- A text whose end does not join what follows: neither a word nor a dot that goes on a path. -/
def EndsApart (text : List Char) : Prop :=
  ∀ c ∈ text.getLast?, isReferenceChar c = false ∧
    (c = '.' → ∀ d ∈ text.dropLast.getLast?, isReferenceChar d = false ∧ d ≠ ']')

/-- A text behind which a reference may start: no quote and no bracket is open, and the end does not
join what follows. -/
structure Leads (lead : List Char) : Prop where
  closed : lead.foldl Stance.next .free = .free
  apart : EndsApart lead

/-- A text that no path goes on with: neither a word nor a bracket, nor a dot before a word. -/
def StartsApart (text : List Char) : Prop :=
  ∀ c ∈ text.head?, isReferenceChar c = false ∧ c ≠ '[' ∧
    (c = '.' → ∀ d ∈ text.tail.head?, isReferenceChar d = false)

/-- A text before which a reference may end: it does not go on the reference, and does not make it a
label. -/
structure Follows (tail : List Char) : Prop where
  apart : StartsApart tail
  unlabelled : isLabelled tail = false

/-- A text without a separator outside of quotes and brackets, read where some brackets are open, that
closes what it opens and nothing else. -/
structure Sealed (separator : Char) (nesting : Nat) (text : List Char) : Prop where
  whole : splitFrom separator ⟨none, nesting⟩ text = [text]
  closed : text.foldl Scan.next ⟨none, nesting⟩ = ⟨none, nesting⟩

end MessageTemplate.Template
