import MessageTemplate.Template.Token

/-! # Cutting a template into pieces

The source is cut at the first closing delimiter behind each opening one, whatever stands
between them. A raw block is one piece of text, a comment block and a tag whose name starts with a
number sign leave nothing behind. -/

namespace MessageTemplate.Template

open Text

/-- The delimiter that opens at the start of a text, with the text behind it. -/
def openingAt? (text : List Char) : Option (Delimiter × List Char) :=
  match Delimiter.output.opening.isPrefixOf? text with
  | some body => some (.output, body)
  | none => (Delimiter.tag.opening.isPrefixOf? text).map fun body => (.tag, body)

/-- The first opening delimiter of a text, between the text before it and the text behind it. -/
def findOpening? : List Char → Option (List Char × Delimiter × List Char)
  | [] => none
  | c :: rest =>
    match openingAt? (c :: rest) with
    | some (delimiter, body) => some ([], delimiter, body)
    | none =>
      (findOpening? rest).map fun (before, delimiter, body) => (c :: before, delimiter, body)

/-- Leaves out a character at the start of a text. -/
def dropLeading (mark : Char) : List Char → List Char
  | [] => []
  | c :: rest => if c = mark then rest else c :: rest

/-- Leaves out a character at the end of a text. -/
def dropTrailing (mark : Char) (text : List Char) : List Char :=
  (dropLeading mark text.reverse).reverse

/-- The inside of a delimiter without the hyphens that ask for white space to be stripped. -/
def markupOf (inner : List Char) : List Char :=
  trim (dropTrailing '-' (dropLeading '-' inner))

/-- The tag of some markup: the name reaches to the first blank. -/
def tagOf (markup : List Char) (token : Token) : Tag where
  name := String.ofList (markup.takeWhile fun c => !isBlank c)
  markup := String.ofList (trim (markup.dropWhile fun c => !isBlank c))
  token := token

/-- What stands behind the end tag with a name, if a text starts with that tag. -/
def endTag? (name : List Char) (text : List Char) : Option (List Char) := do
  let text ← Delimiter.tag.opening.isPrefixOf? text
  let text ← name.isPrefixOf? (trimStart (dropLeading '-' text))
  Delimiter.tag.closing.isPrefixOf? (dropLeading '-' (trimStart text))

/-- What stands before and behind the first end tag with a name. -/
def breakEndTag? (name : List Char) : List Char → Option (List Char × List Char)
  | [] => none
  | c :: rest =>
    match endTag? name (c :: rest) with
    | some after => some ([], after)
    | none => (breakEndTag? name rest).map fun (before, after) => (c :: before, after)

/-- An output or a tag that has been cut off: its token, its markup and what stands behind it. -/
structure Cut where
  delimiter : Delimiter
  token : Token
  markup : List Char
  after : List Char

/-- Cuts off the output or tag whose opening delimiter stands at a position. Without a closing
delimiter the line from there on is to blame. -/
def cutAt (start : Nat) (delimiter : Delimiter) (body : List Char) : Except Fault Cut :=
  match breakOn delimiter.closing body with
  | some (inner, after) =>
    let text := delimiter.opening ++ inner ++ delimiter.closing
    .ok {
      delimiter := delimiter
      token := ⟨String.ofList text, ⟨start, start + width text⟩⟩
      markup := markupOf inner
      after := after }
  | none =>
    let line := (delimiter.opening ++ body).takeWhile (· ≠ '\n')
    .error ⟨.missingClosing delimiter,
      some ⟨String.ofList line, ⟨start, start + width line⟩⟩⟩

/-- What a cut stands for: pieces, the number of bytes behind the token that belong to them, and
the text behind those. -/
structure Reading where
  pieces : List Piece
  skipped : Nat
  after : List Char

/-- Reads the opening tag of a raw block: the text up to the end tag is one piece. -/
def Cut.readRaw (cut : Cut) : Except Fault Reading :=
  match breakEndTag? "endraw".toList cut.after with
  | some (content, after) =>
    .ok ⟨[.text (String.ofList content)], width cut.after - width after, after⟩
  | none => .error ⟨.unclosed "raw", some cut.token⟩

/-- Reads the opening tag of a comment block, which leaves nothing behind. -/
def Cut.readComment (cut : Cut) : Except Fault Reading :=
  match breakEndTag? "endcomment".toList cut.after with
  | some (_, after) => .ok ⟨[], width cut.after - width after, after⟩
  | none => .error ⟨.unclosed "comment", some cut.token⟩

/-- Reads a tag. -/
def Cut.readTag (cut : Cut) (tag : Tag) : Except Fault Reading :=
  if tag.name = "" then .error ⟨.missingName, some cut.token⟩
  else if tag.name.toList.head? = some '#' then .ok ⟨[], 0, cut.after⟩
  else if tag.name = "raw" then cut.readRaw
  else if tag.name = "comment" then cut.readComment
  else .ok ⟨[.tag tag], 0, cut.after⟩

/-- Reads an output or a tag. -/
def Cut.read (cut : Cut) : Except Fault Reading :=
  match cut.delimiter with
  | .output => .ok ⟨[.output (String.ofList cut.markup) cut.token], 0, cut.after⟩
  | .tag => cut.readTag (tagOf cut.markup cut.token)

/-- The text before a delimiter as a piece, unless it is empty. -/
def textPiece (content : List Char) : List Piece :=
  if content.isEmpty then [] else [.text (String.ofList content)]

theorem openingAt?_eq_some {text body : List Char} {delimiter : Delimiter}
    (found : openingAt? text = some (delimiter, body)) : text = delimiter.opening ++ body := by
  unfold openingAt? at found
  split at found
  · next cut =>
    obtain ⟨rfl, rfl⟩ := Prod.mk.inj (Option.some.inj found)
    exact isPrefixOf?_eq_some cut
  · obtain ⟨_, cut, joined⟩ := Option.map_eq_some_iff.mp found
    obtain ⟨rfl, rfl⟩ := Prod.mk.inj joined
    exact isPrefixOf?_eq_some cut

/-- Nothing is lost at an opening delimiter. -/
theorem findOpening?_eq_some {text before body : List Char} {delimiter : Delimiter}
    (found : findOpening? text = some (before, delimiter, body)) :
    text = before ++ delimiter.opening ++ body := by
  induction text generalizing before with
  | nil => simp [findOpening?] at found
  | cons c rest ih =>
    rw [findOpening?] at found
    split at found
    · next cut =>
      simp only [Option.some.injEq, Prod.mk.injEq] at found
      obtain ⟨rfl, rfl, rfl⟩ := found
      simpa using openingAt?_eq_some cut
    · obtain ⟨⟨first, second, third⟩, more, joined⟩ := Option.map_eq_some_iff.mp found
      simp only [Prod.mk.injEq] at joined
      obtain ⟨rfl, rfl, rfl⟩ := joined
      rw [ih more]
      rfl

theorem trimStart_length (text : List Char) : (trimStart text).length ≤ text.length :=
  (List.dropWhile_sublist isBlank).length_le

theorem dropLeading_length (mark : Char) (text : List Char) :
    (dropLeading mark text).length ≤ text.length := by
  cases text with
  | nil => exact Nat.le_refl _
  | cons c rest =>
    rw [dropLeading]
    split
    · exact Nat.le_succ _
    · exact Nat.le_refl _

theorem endTag?_length {name text after : List Char} (found : endTag? name text = some after) :
    after.length ≤ text.length := by
  obtain ⟨one, first, found⟩ := Option.bind_eq_some_iff.mp found
  obtain ⟨two, second, third⟩ := Option.bind_eq_some_iff.mp found
  have first := congrArg List.length (isPrefixOf?_eq_some first)
  have second := congrArg List.length (isPrefixOf?_eq_some second)
  have third := congrArg List.length (isPrefixOf?_eq_some third)
  have := trimStart_length (dropLeading '-' one)
  have := dropLeading_length '-' one
  have := trimStart_length two
  have := dropLeading_length '-' (trimStart two)
  simp only [List.length_append] at *
  omega

theorem breakEndTag?_length {name text before after : List Char}
    (found : breakEndTag? name text = some (before, after)) : after.length ≤ text.length := by
  induction text generalizing before with
  | nil => simp [breakEndTag?] at found
  | cons c rest ih =>
    rw [breakEndTag?] at found
    split at found
    · next cut =>
      obtain ⟨_, rfl⟩ := Prod.mk.inj (Option.some.inj found)
      exact endTag?_length cut
    · obtain ⟨⟨first, last⟩, more, joined⟩ := Option.map_eq_some_iff.mp found
      obtain ⟨_, rfl⟩ := Prod.mk.inj joined
      exact Nat.le_succ_of_le (ih more)

theorem cutAt_length {start : Nat} {delimiter : Delimiter} {body : List Char} {cut : Cut}
    (found : cutAt start delimiter body = .ok cut) : cut.after.length ≤ body.length := by
  unfold cutAt at found
  split at found
  · next broken =>
    obtain rfl := Except.ok.inj found
    have := congrArg List.length (breakOn_eq_some broken)
    simp only [List.length_append] at this
    simp only
    omega
  · simp at found

theorem Cut.readRaw_length {cut : Cut} {reading : Reading} (read : cut.readRaw = .ok reading) :
    reading.after.length ≤ cut.after.length := by
  unfold Cut.readRaw at read
  split at read
  · next found =>
    obtain rfl := Except.ok.inj read
    exact breakEndTag?_length found
  · simp at read

theorem Cut.readComment_length {cut : Cut} {reading : Reading}
    (read : cut.readComment = .ok reading) : reading.after.length ≤ cut.after.length := by
  unfold Cut.readComment at read
  split at read
  · next found =>
    obtain rfl := Except.ok.inj read
    exact breakEndTag?_length found
  · simp at read

theorem Cut.readTag_length {cut : Cut} {tag : Tag} {reading : Reading}
    (read : cut.readTag tag = .ok reading) : reading.after.length ≤ cut.after.length := by
  unfold Cut.readTag at read
  split at read
  · simp at read
  split at read
  · obtain rfl := Except.ok.inj read
    exact Nat.le_refl _
  split at read
  · exact readRaw_length read
  split at read
  · exact readComment_length read
  · obtain rfl := Except.ok.inj read
    exact Nat.le_refl _

theorem Cut.read_length {cut : Cut} {reading : Reading} (read : cut.read = .ok reading) :
    reading.after.length ≤ cut.after.length := by
  unfold Cut.read at read
  split at read
  · obtain rfl := Except.ok.inj read
    exact Nat.le_refl _
  · exact readTag_length read

/-- Cuts the text from a position on into pieces. -/
def piecesFrom (position : Nat) (text : List Char) : Except Fault (List Piece) :=
  match _h : findOpening? text with
  | none => .ok (textPiece text)
  | some (before, delimiter, body) =>
    match _c : cutAt (position + width before) delimiter body with
    | .error fault => .error fault
    | .ok cut =>
      match _r : cut.read with
      | .error fault => .error fault
      | .ok reading =>
        (piecesFrom (cut.token.span.stop + reading.skipped) reading.after).map fun others =>
          textPiece before ++ reading.pieces ++ others
termination_by text.length
decreasing_by
  have whole := congrArg List.length (findOpening?_eq_some _h)
  have := cutAt_length _c
  have := Cut.read_length _r
  have : 0 < delimiter.opening.length := by cases delimiter <;> decide
  simp only [List.length_append] at whole
  omega

/-- The pieces of a template. -/
def pieces (source : String) : Except Fault (List Piece) :=
  piecesFrom 0 source.toList

end MessageTemplate.Template
