import MessageTemplate.Text.Basic

/-! # Splitting outside of quotes and brackets

Expressions are cut at separators that stand neither in a quoted text nor inside brackets or
parentheses. A closing bracket without an opening one changes nothing, and the two kinds of
brackets are not told apart. -/

namespace MessageTemplate.Template

/-- The quote characters. -/
def isQuote (c : Char) : Bool := c = '"' || c = '\''

/-- The quote that is open after a character, given the one that is open before it. -/
def nextQuote (quote : Option Char) (c : Char) : Option Char :=
  match quote with
  | some opening => if c = opening then none else some opening
  | none => if isQuote c then some c else none

/-- Where a scan stands: in a text quoted with a character or outside, and how many brackets are
open. -/
structure Scan where
  quote : Option Char
  nesting : Nat
  deriving DecidableEq, Repr

namespace Scan

/-- The state at the start of a text. -/
def start : Scan := ⟨none, 0⟩

/-- The opening brackets. -/
def isOpening (c : Char) : Bool := c = '(' || c = '['

/-- The closing brackets. -/
def isClosing (c : Char) : Bool := c = ')' || c = ']'

/-- Whether a separator may start with a character: outside of quotes and brackets, and none of
these characters itself. -/
def admitsCut (state : Scan) (c : Char) : Bool :=
  state.quote.isNone && state.nesting = 0 && !isQuote c && !isOpening c && !isClosing c

/-- The number of open brackets after a character that stands outside of quotes. -/
def nextNesting (nesting : Nat) (c : Char) : Nat :=
  if isOpening c then nesting + 1 else if isClosing c then nesting - 1 else nesting

/-- The state after a character. -/
def next (state : Scan) (c : Char) : Scan where
  quote := nextQuote state.quote c
  nesting := if state.quote.isNone then nextNesting state.nesting c else state.nesting

end Scan

/-- Splits the rest of a text at a separator character. -/
def splitFrom (separator : Char) (state : Scan) : List Char → List (List Char)
  | [] => [[]]
  | c :: rest =>
    if state.admitsCut c && c = separator then [] :: splitFrom separator state rest
    else (splitFrom separator (state.next c) rest).modifyHead (c :: ·)

/-- Splits a text at a separator character that stands outside of quotes and brackets. -/
def splitTopLevel (separator : Char) (text : List Char) : List (List Char) :=
  splitFrom separator .start text

/-- Splits the rest of a text at a separator text. The characters still to be skipped belong to
a separator that has been found. -/
def splitTextFrom (separator : List Char) (state : Scan) (skip : Nat) :
    List Char → List (List Char)
  | [] => [[]]
  | c :: rest =>
    match skip with
    | skip + 1 => splitTextFrom separator state skip rest
    | 0 =>
      if state.admitsCut c && !separator.isEmpty && separator.isPrefixOf (c :: rest) then
        [] :: splitTextFrom separator state (separator.length - 1) rest
      else (splitTextFrom separator (state.next c) 0 rest).modifyHead (c :: ·)

/-- Splits a text at a separator text that starts outside of quotes and brackets. -/
def splitTopLevelText (separator text : List Char) : List (List Char) :=
  splitTextFrom separator .start 0 text

end MessageTemplate.Template
