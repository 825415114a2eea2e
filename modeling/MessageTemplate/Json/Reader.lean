import MessageTemplate.Json.Lexeme

/-! # Reading JSON

Values are put together from lexemes by a machine with one frame for each container that is still
open. Containers nest at most 127 deep. -/

namespace MessageTemplate.Json

/-- A container that is still open, with what it holds so far, the last entry first. A member
whose value is still to come is a frame of its own. -/
inductive Frame where
  | items (done : List Json)
  | members (done : List (String × Json))
  | member (done : List (String × Json)) (key : String)

/-- What may come next: a value; a value or the end of an array; a key or the end of an object;
a key; the colon after a key; or, after a complete value, what goes on or ends its container. -/
inductive Expected where
  | value
  | valueOrEnd
  | keyOrEnd
  | key
  | colon (key : String)
  | after (value : Json)

/-- The machine's state: what may come next and the open containers, the innermost first. -/
structure Progress where
  expected : Expected
  frames : List Frame

/-- How many containers may be open at once. -/
def maxDepth : Nat := 127

/-- Opens a container, unless too many are open. -/
def Progress.open? (frames : List Frame) (frame : Frame) (expected : Expected) :
    Option Progress :=
  if frames.length < maxDepth then some ⟨expected, frame :: frames⟩ else none

/-- Starts a value. -/
def Progress.start? (frames : List Frame) : Lexeme → Option Progress
  | .scalar value => some ⟨.after value, frames⟩
  | .beginArray => Progress.open? frames (.items []) .valueOrEnd
  | .beginObject => Progress.open? frames (.members []) .keyOrEnd
  | _ => none

/-- Goes on after a complete value: the container it stands in continues or ends. -/
def Progress.continue? (value : Json) : List Frame → Lexeme → Option Progress
  | .items done :: frames, .comma => some ⟨.value, .items (value :: done) :: frames⟩
  | .items done :: frames, .endArray => some ⟨.after (.array (value :: done).reverse), frames⟩
  | .member done key :: frames, .comma => some ⟨.key, .members ((key, value) :: done) :: frames⟩
  | .member done key :: frames, .endObject =>
    some ⟨.after (.object ((key, value) :: done).reverse), frames⟩
  | _, _ => none

/-- One step of the machine. -/
def Progress.step? (state : Progress) (lexeme : Lexeme) : Option Progress :=
  match state.expected, state.frames, lexeme with
  | .value, frames, _ => Progress.start? frames lexeme
  | .valueOrEnd, .items done :: frames, .endArray =>
    some ⟨.after (.array done.reverse), frames⟩
  | .valueOrEnd, frames, _ => Progress.start? frames lexeme
  | .keyOrEnd, .members done :: frames, .endObject =>
    some ⟨.after (.object done.reverse), frames⟩
  | .keyOrEnd, frames, .scalar (.string key) => some ⟨.colon key, frames⟩
  | .key, frames, .scalar (.string key) => some ⟨.colon key, frames⟩
  | .colon key, .members done :: frames, .colon => some ⟨.value, .member done key :: frames⟩
  | .after value, frames, _ => Progress.continue? value frames lexeme
  | _, _, _ => none

/-- The value of a complete list of lexemes. -/
def ofLexemes? (lexemes : List Lexeme) : Option Json :=
  match lexemes.foldlM Progress.step? ⟨.value, []⟩ with
  | some ⟨.after value, []⟩ => some value
  | _ => none

/-- Reads a JSON text. Objects keep their members as they are written, repeated keys
included. -/
def readWritten? (text : String) : Option Json :=
  (lexemes? text.toList).bind ofLexemes?

/-- Reads a JSON text. Of members with one key the last one counts. -/
def read? (text : String) : Option Json :=
  (readWritten? text).map ordered

end MessageTemplate.Json
