import MessageTemplate.Json.Number

/-! # Lexemes of JSON text

The text is cut into punctuation and scalars. White space between them is one of the four
characters that the format allows there; inside strings control characters must be escaped, and
escaped surrogates must come in pairs. -/

namespace MessageTemplate.Json

/-- A punctuation mark or a scalar of JSON text. -/
inductive Lexeme where
  | beginArray
  | endArray
  | beginObject
  | endObject
  | comma
  | colon
  | scalar (value : Json)

/-- The white space that may stand between lexemes. -/
def isSpace (c : Char) : Bool :=
  c = ' ' || c = '\t' || c = '\n' || c = '\r'

/-- The punctuation marks. -/
def punctuation? : Char → Option Lexeme
  | '[' => some .beginArray
  | ']' => some .endArray
  | '\x7b' => some .beginObject
  | '\x7d' => some .endObject
  | ',' => some .comma
  | ':' => some .colon
  | _ => none

/-- The value of a hexadecimal digit. -/
def hexDigit? (c : Char) : Option Nat :=
  if c.isDigit then some (c.toNat - '0'.toNat)
  else if 'a' ≤ c && c ≤ 'f' then some (c.toNat - 'a'.toNat + 10)
  else if 'A' ≤ c && c ≤ 'F' then some (c.toNat - 'A'.toNat + 10)
  else none

/-- Reads four hexadecimal digits. -/
def readUnit? : List Char → Option (Nat × List Char)
  | a :: b :: c :: d :: rest => do
    let a ← hexDigit? a
    let b ← hexDigit? b
    let c ← hexDigit? c
    let d ← hexDigit? d
    return (((a * 16 + b) * 16 + c) * 16 + d, rest)
  | _ => none

/-- Reads the character of an escaped code unit; a high surrogate needs a low one after it. -/
def readCodePoint? (text : List Char) : Option (Char × List Char) := do
  let (unit, rest) ← readUnit? text
  if unit < 0xD800 || 0xE000 ≤ unit then return (Char.ofNat unit, rest)
  else if unit < 0xDC00 then
    match rest with
    | '\\' :: 'u' :: rest =>
      let (low, rest) ← readUnit? rest
      if 0xDC00 ≤ low && low < 0xE000 then
        return (Char.ofNat (0x10000 + (unit - 0xD800) * 0x400 + (low - 0xDC00)), rest)
      else none
    | _ => none
  else none

/-- Reads what follows a backslash. -/
def readEscape? : List Char → Option (Char × List Char)
  | '"' :: rest => some ('"', rest)
  | '\\' :: rest => some ('\\', rest)
  | '/' :: rest => some ('/', rest)
  | 'b' :: rest => some ('\x08', rest)
  | 'f' :: rest => some ('\x0c', rest)
  | 'n' :: rest => some ('\n', rest)
  | 'r' :: rest => some ('\r', rest)
  | 't' :: rest => some ('\t', rest)
  | 'u' :: rest => readCodePoint? rest
  | _ => none

theorem readUnit?_length {text rest : List Char} {unit : Nat}
    (read : readUnit? text = some (unit, rest)) : rest.length < text.length := by
  unfold readUnit? at read
  split at read
  · simp only [Option.bind_eq_bind, Option.bind_eq_some_iff, Option.pure_def, Option.some.injEq,
      Prod.mk.injEq] at read
    obtain ⟨_, _, _, _, _, _, _, _, _, rfl⟩ := read
    simp only [List.length_cons]
    omega
  · simp at read

theorem readCodePoint?_length {text rest : List Char} {c : Char}
    (read : readCodePoint? text = some (c, rest)) : rest.length < text.length := by
  rw [readCodePoint?] at read
  obtain ⟨⟨unit, tail⟩, first, read⟩ := Option.bind_eq_some_iff.mp read
  have shorter := readUnit?_length first
  simp only at read
  split at read
  · simp only [Option.pure_def, Option.some.injEq, Prod.mk.injEq] at read
    obtain ⟨_, rfl⟩ := read
    exact shorter
  · split at read
    · split at read
      · next inner =>
        obtain ⟨⟨low, last⟩, second, read⟩ := Option.bind_eq_some_iff.mp read
        have lastShorter := readUnit?_length second
        simp only at read
        split at read
        · simp only [Option.pure_def, Option.some.injEq, Prod.mk.injEq] at read
          obtain ⟨_, rfl⟩ := read
          simp only [List.length_cons] at shorter
          omega
        · simp at read
      · simp at read
    · simp at read

theorem readEscape?_length {text rest : List Char} {c : Char}
    (read : readEscape? text = some (c, rest)) : rest.length < text.length := by
  unfold readEscape? at read
  split at read
  case h_9 tail => exact Nat.lt_succ_of_lt (readCodePoint?_length read)
  case h_10 => simp at read
  all_goals
    simp only [Option.some.injEq, Prod.mk.injEq] at read
    obtain ⟨_, rfl⟩ := read
    simp

/-- Reads a string from behind its opening quote. -/
def readString? : List Char → Option (List Char × List Char)
  | [] => none
  | c :: rest =>
    if c = '"' then some ([], rest)
    else if c = '\\' then
      match _h : readEscape? rest with
      | none => none
      | some (escaped, tail) =>
        (readString? tail).map fun (text, after) => (escaped :: text, after)
    else if c.toNat < 0x20 then none
    else (readString? rest).map fun (text, after) => (c :: text, after)
termination_by text => text.length
decreasing_by
  · have := readEscape?_length _h
    simp only [List.length_cons]
    omega
  · simp

theorem readString?_length {text after body : List Char}
    (read : readString? text = some (body, after)) : after.length < text.length := by
  fun_induction readString? text generalizing body with
  | case1 => simp at read
  | case2 rest =>
    obtain ⟨_, rfl⟩ := Prod.mk.inj (Option.some.inj read)
    simp
  | case3 => simp at read
  | case4 rest escaped tail cut _ ih =>
    obtain ⟨⟨inner, last⟩, more, joined⟩ := Option.map_eq_some_iff.mp read
    obtain ⟨_, rfl⟩ := Prod.mk.inj joined
    have := ih more
    have := readEscape?_length cut
    simp only [List.length_cons]
    omega
  | case5 => simp at read
  | case6 c rest _ _ _ ih =>
    obtain ⟨⟨inner, last⟩, more, joined⟩ := Option.map_eq_some_iff.mp read
    obtain ⟨_, rfl⟩ := Prod.mk.inj joined
    have := ih more
    simp only [List.length_cons]
    omega

/-- The words that are scalars. -/
def words : List (List Char × Json) :=
  [("null".toList, .null), ("true".toList, .bool true), ("false".toList, .bool false)]

/-- Reads a word at the start of a text. -/
def readWord? (text : List Char) : Option (Json × List Char) :=
  words.findSome? fun (word, value) => (word.isPrefixOf? text).map fun rest => (value, rest)

/-- Reads a scalar at the start of a text. -/
def readScalar? (text : List Char) : Option (Json × List Char) :=
  match text with
  | '"' :: rest => (readString? rest).map fun (body, after) => (.string (String.ofList body), after)
  | _ =>
    match readWord? text with
    | some found => some found
    | none => (readNumber? text).map fun (value, after) => (.number value, after)

theorem spanDigits_length {text digits rest : List Char}
    (cut : Decimal.spanDigits text = (digits, rest)) :
    digits.length + rest.length = text.length := by
  obtain ⟨rfl, rfl⟩ := Prod.mk.inj cut
  rw [← List.length_append, List.takeWhile_append_dropWhile]

theorem readWhole?_length {text digits rest : List Char}
    (read : readWhole? text = some (digits, rest)) : rest.length < text.length := by
  unfold readWhole? at read
  split at read
  · next cut =>
    have := spanDigits_length cut
    obtain ⟨_, rfl⟩ := Prod.mk.inj (Option.some.inj read)
    simp only [List.length_cons, List.length_nil] at this
    omega
  · simp at read
  · simp at read
  · next nonempty =>
    have cut := Option.some.inj read
    have := spanDigits_length cut
    have : digits ≠ [] := fun empty => nonempty _ (empty ▸ cut)
    have := List.length_pos_iff.mpr this
    omega

theorem readFraction?_length {text digits rest : List Char}
    (read : readFraction? text = some (digits, rest)) : rest.length ≤ text.length := by
  unfold readFraction? at read
  split at read
  · split at read
    · simp at read
    · have := spanDigits_length (Option.some.inj read)
      simp only [List.length_cons]
      omega
  · obtain ⟨_, rfl⟩ := Prod.mk.inj (Option.some.inj read)
    exact Nat.le_refl _

theorem readPower?_length {negative : Bool} {text rest : List Char}
    {exponent : Option (Bool × List Char)}
    (read : readPower? negative text = some (exponent, rest)) : rest.length ≤ text.length := by
  unfold readPower? at read
  split at read
  · simp at read
  · next cut =>
    obtain ⟨_, rfl⟩ := Prod.mk.inj (Option.some.inj read)
    have := spanDigits_length cut
    omega

theorem readExponent?_length {text rest : List Char} {exponent : Option (Bool × List Char)}
    (read : readExponent? text = some (exponent, rest)) : rest.length ≤ text.length := by
  unfold readExponent? at read
  split at read
  · split at read
    · split at read
      all_goals
        have := readPower?_length read
        simp only [List.length_cons] at *
        omega
    · obtain ⟨_, rfl⟩ := Prod.mk.inj (Option.some.inj read)
      exact Nat.le_refl _
  · obtain ⟨_, rfl⟩ := Prod.mk.inj (Option.some.inj read)
    exact Nat.le_refl _

theorem readUnsigned?_length {negative : Bool} {text rest : List Char} {number : Number}
    (read : readUnsigned? negative text = some (number, rest)) : rest.length < text.length := by
  obtain ⟨⟨whole, one⟩, first, read⟩ := Option.bind_eq_some_iff.mp read
  obtain ⟨⟨fraction, two⟩, second, read⟩ := Option.bind_eq_some_iff.mp read
  obtain ⟨⟨exponent, three⟩, third, read⟩ := Option.bind_eq_some_iff.mp read
  obtain ⟨value, _, read⟩ := Option.bind_eq_some_iff.mp read
  obtain ⟨_, rfl⟩ := Prod.mk.inj (Option.some.inj read)
  have := readWhole?_length first
  have := readFraction?_length second
  have := readExponent?_length third
  omega

theorem readNumber?_length {text rest : List Char} {number : Number}
    (read : readNumber? text = some (number, rest)) : rest.length < text.length := by
  unfold readNumber? at read
  split at read
  · exact Nat.lt_succ_of_lt (readUnsigned?_length read)
  · exact readUnsigned?_length read

theorem readWord?_length {text rest : List Char} {value : Json}
    (read : readWord? text = some (value, rest)) : rest.length < text.length := by
  obtain ⟨⟨word, meaning⟩, member, cut⟩ := List.exists_of_findSome?_eq_some read
  obtain ⟨tail, stripped, joined⟩ := Option.map_eq_some_iff.mp cut
  obtain ⟨_, rfl⟩ := Prod.mk.inj joined
  have whole := Text.isPrefixOf?_eq_some stripped
  have : 0 < word.length := by
    simp only [words, List.mem_cons, Prod.mk.injEq, List.not_mem_nil, or_false] at member
    rcases member with ⟨rfl, _⟩ | ⟨rfl, _⟩ | ⟨rfl, _⟩ <;> decide
  rw [whole, List.length_append]
  omega

/-- A scalar takes at least one character. -/
theorem readScalar?_length {text rest : List Char} {value : Json}
    (read : readScalar? text = some (value, rest)) : rest.length < text.length := by
  unfold readScalar? at read
  split at read
  · obtain ⟨⟨body, after⟩, inner, joined⟩ := Option.map_eq_some_iff.mp read
    obtain ⟨_, rfl⟩ := Prod.mk.inj joined
    exact Nat.lt_succ_of_lt (readString?_length inner)
  · split at read
    · next word =>
      obtain rfl := Option.some.inj read
      exact readWord?_length word
    · obtain ⟨⟨value, after⟩, inner, joined⟩ := Option.map_eq_some_iff.mp read
      obtain ⟨_, rfl⟩ := Prod.mk.inj joined
      exact readNumber?_length inner

/-- Cuts a text into lexemes. -/
def lexemes? : List Char → Option (List Lexeme)
  | [] => some []
  | c :: rest =>
    if isSpace c then lexemes? rest
    else
      match punctuation? c with
      | some mark => (lexemes? rest).map (mark :: ·)
      | none =>
        match _h : readScalar? (c :: rest) with
        | some (value, tail) => (lexemes? tail).map (.scalar value :: ·)
        | none => none
termination_by text => text.length
decreasing_by
  · simp
  · simp
  · exact readScalar?_length _h

end MessageTemplate.Json
