import MessageTemplate.Json.Lexeme
import MessageTemplate.Json.Writer
import MessageTemplate.Proofs.Json.Shape

/-! # The text of a value in lexemes

A value is written as a list of lexemes, its punctuation marks and its scalars, and its text is cut
into just these (`lexemes?_write`). Strings are read up to their closing quote whatever follows;
numbers up to a character that cannot go on with them, so what follows a value matters
(`Closes`). -/

namespace MessageTemplate.Json

/-! ## Strings -/

/-- The characters of a string as they are written. -/
def escape (text : List Char) : List Char :=
  text.flatMap fun c => writeChar c []

theorem escape_cons (c : Char) (rest : List Char) :
    escape (c :: rest) = writeChar c [] ++ escape rest := rfl

theorem escape_append (left right : List Char) :
    escape (left ++ right) = escape left ++ escape right :=
  List.flatMap_append

theorem writeChar_append (c : Char) (rest : List Char) :
    writeChar c rest = writeChar c [] ++ rest := by
  simp only [writeChar, apply_ite (· ++ rest), List.cons_append, List.nil_append]

theorem writeBody_eq (text rest : List Char) : writeBody text rest = escape text ++ '"' :: rest := by
  induction text with
  | nil => rfl
  | cons c text ih => rw [writeBody, writeChar_append, ih, escape_cons, List.append_assoc]

theorem hexDigit?_hexDigit {value : Nat} (small : value < 16) :
    hexDigit? (hexDigit value) = some value := by
  have all : ∀ value < 16, hexDigit? (hexDigit value) = some value := by decide
  exact all value small

/-- An escaped control character is read from its two digits. -/
theorem readEscape?_control {c : Char} (control : c.toNat < 0x20) (rest : List Char) :
    readEscape? ('u' :: '0' :: '0' :: hexDigit (c.toNat / 16) :: hexDigit (c.toNat % 16) :: rest) =
      some (c, rest) := by
  have zero : hexDigit? '0' = some 0 := rfl
  have whole : ((0 * 16 + 0) * 16 + c.toNat / 16) * 16 + c.toNat % 16 = c.toNat := by omega
  have low : c.toNat < 0xD800 := by omega
  rw [readEscape?, readCodePoint?, readUnit?, zero, hexDigit?_hexDigit (by omega),
    hexDigit?_hexDigit (by omega)]
  simp only [Option.bind_eq_bind, Option.bind_some, whole, low, decide_true, Bool.true_or,
    ↓reduceIte, Option.pure_def, Char.ofNat_toNat]

theorem readString?_backslash {text tail : List Char} {c : Char}
    (escaped : readEscape? text = some (c, tail)) :
    readString? ('\\' :: text) = (readString? tail).map fun (body, after) => (c :: body, after) := by
  rw [readString?, if_neg (by decide), if_pos rfl]
  split
  · next missing => cases escaped.symm.trans missing
  · next found =>
    cases escaped.symm.trans found
    rfl

/-- A character is read back as it was written. -/
theorem readString?_writeChar (c : Char) (rest : List Char) :
    readString? (writeChar c [] ++ rest) =
      (readString? rest).map fun (body, after) => (c :: body, after) := by
  by_cases quote : c = '"'
  · exact quote ▸ readString?_backslash rfl
  by_cases backslash : c = '\\'
  · exact backslash ▸ readString?_backslash rfl
  by_cases high : 0x20 ≤ c.toNat
  · rw [writeChar, if_neg quote, if_neg backslash, if_pos high, List.singleton_append, readString?,
      if_neg quote, if_neg backslash, if_neg (Nat.not_lt.mpr high)]
  by_cases back : c = '\x08'
  · exact back ▸ readString?_backslash rfl
  by_cases feed : c = '\x0c'
  · exact feed ▸ readString?_backslash rfl
  by_cases line : c = '\n'
  · exact line ▸ readString?_backslash rfl
  by_cases carriage : c = '\r'
  · exact carriage ▸ readString?_backslash rfl
  by_cases tab : c = '\t'
  · exact tab ▸ readString?_backslash rfl
  rw [writeChar, if_neg quote, if_neg backslash, if_neg high, if_neg back, if_neg feed, if_neg line,
    if_neg carriage, if_neg tab]
  exact readString?_backslash (readEscape?_control (Nat.lt_of_not_le high) rest)

theorem readString?_escape (text rest : List Char) :
    readString? (escape text ++ '"' :: rest) = some (text, rest) := by
  induction text with
  | nil => rw [escape, List.flatMap_nil, List.nil_append, readString?, if_pos rfl]
  | cons c text ih => rw [escape_cons, List.append_assoc, readString?_writeChar, ih]; rfl

/-! ## Numbers -/

theorem toList_toString (value : Int) :
    (toString value).toList = (if value < 0 then ['-'] else []) ++ Nat.toDigits 10 value.natAbs := by
  cases value with
  | ofNat n =>
    change (Nat.repr n).toList = _
    have positive : ¬Int.ofNat n < 0 := by simp
    rw [if_neg positive]
    simp [Nat.repr]
  | negSucc n =>
    change ("-" ++ Nat.repr (n + 1)).toList = _
    rw [if_pos (Int.negSucc_lt_zero n)]
    simp [Nat.repr]

/-- What may follow a value: a mark that goes on with the container it stands in or ends it, or
nothing. -/
def Closes (rest : List Char) : Prop :=
  ∀ c ∈ rest.head?, c ∈ [',', ']', '\x7d']

theorem closes_nil : Closes [] := nofun

theorem Closes.all {rest : List Char} (closes : Closes rest) (good : Char → Bool)
    (marks : [',', ']', '\x7d'].all good = true) : ∀ c ∈ rest.head?, good c = true :=
  fun c first => List.all_eq_true.mp marks c (closes c first)

theorem closes_cons {c : Char} {rest : List Char} (mark : c ∈ [',', ']', '\x7d']) :
    Closes (c :: rest) := by
  rintro d ⟨⟩
  exact mark

theorem head?_toDigits {n : Nat} (positive : 0 < n) : (Nat.toDigits 10 n).head? ≠ some '0' := by
  induction n using Nat.strongRecOn with
  | ind n ih =>
    by_cases small : n < 10
    · have digits : ∀ n < 10, 0 < n → (Nat.toDigits 10 n).head? ≠ some '0' := by decide
      exact digits n small positive
    · rw [Nat.toDigits_of_base_le (by decide) (Nat.le_of_not_lt small),
        List.head?_append_of_ne_nil _ Nat.toDigits_ne_nil]
      exact ih (n / 10) (by omega) (by omega)

/-- A digit is none of the characters that JSON text gives another meaning. -/
theorem ne_of_isDigit {c other : Char} (digit : c.isDigit = true) (plain : other.isDigit = false) :
    c ≠ other := by
  rintro rfl
  exact Bool.noConfusion (digit.symm.trans plain)

theorem toDigits_eq_cons (n : Nat) :
    ∃ c digits, Nat.toDigits 10 n = c :: digits ∧ c.isDigit = true := by
  obtain ⟨c, digits, given⟩ := List.exists_cons_of_ne_nil (Nat.toDigits_ne_nil (n := n) (b := 10))
  have member : c ∈ Nat.toDigits 10 n := given ▸ List.mem_cons_self
  exact ⟨c, digits, given, Nat.isDigit_of_mem_toDigits (by decide) (by decide) member⟩

/-- An integer starts with a sign or a digit. -/
theorem writeNumber_eq_cons {number : Number} (exact : number.IsExact) (rest : List Char) :
    ∃ c tail, writeNumber number rest = c :: tail ∧ (c = '-' ∨ c.isDigit = true) := by
  cases number with
  | real value => exact exact.elim
  | whole value =>
    obtain ⟨c, digits, given, digit⟩ := toDigits_eq_cons value.natAbs
    rw [writeNumber, toList_toString, given]
    split
    · exact ⟨'-', _, rfl, .inl rfl⟩
    · exact ⟨c, _, rfl, .inr digit⟩

theorem number?_true_toDigits {n : Nat} (positive : n ≠ 0) (small : n ≤ 0x8000000000000000) :
    NumberText.number? ⟨true, Nat.toDigits 10 n, [], none⟩ = some (.whole (-n)) := by
  simp [NumberText.number?, Nat.ofDigitChars_toDigits, positive, small]

theorem number?_false_toDigits {n : Nat} (small : n ≤ Text.maxCount) :
    NumberText.number? ⟨false, Nat.toDigits 10 n, [], none⟩ = some (.whole n) := by
  simp [NumberText.number?, Nat.ofDigitChars_toDigits, small]

section Number

variable {rest : List Char} (closes : Closes rest)

include closes

theorem spanDigits_toDigits (n : Nat) :
    Decimal.spanDigits (Nat.toDigits 10 n ++ rest) = (Nat.toDigits 10 n, rest) := by
  have digits : ∀ c ∈ Nat.toDigits 10 n, c.isDigit = true := fun c member =>
    Nat.isDigit_of_mem_toDigits (by decide) (by decide) member
  have stops : ∀ c ∈ rest.head?, (!c.isDigit) = true := closes.all _ (by decide)
  rw [Decimal.spanDigits, List.takeWhile_append_of_pos digits, List.dropWhile_append_of_pos digits]
  cases rest with
  | nil => simp
  | cons c rest =>
    have stop : c.isDigit = false := by simpa using stops c rfl
    simp [stop]

theorem readWhole?_toDigits (n : Nat) :
    readWhole? (Nat.toDigits 10 n ++ rest) = some (Nat.toDigits 10 n, rest) := by
  rw [readWhole?, spanDigits_toDigits closes]
  rcases Nat.eq_zero_or_pos n with rfl | positive
  · rfl
  · have first := head?_toDigits positive
    split
    · next same => rw [(Prod.mk.inj same).1] at first; exact absurd rfl first
    · next same => rw [(Prod.mk.inj same).1] at first; exact absurd rfl first
    · next same => exact absurd (Prod.mk.inj same).1 Nat.toDigits_ne_nil
    · rfl

theorem readFraction?_of_closes : readFraction? rest = some ([], rest) := by
  unfold readFraction?
  split
  · exact absurd (closes '.' rfl) (by decide)
  · rfl

theorem readExponent?_of_closes : readExponent? rest = some (none, rest) := by
  cases rest with
  | nil => rfl
  | cons c rest =>
    have plain := closes.all (fun c => c != 'e' && c != 'E') (by decide) c rfl
    unfold readExponent?
    exact if_neg (by simpa using plain)

theorem readUnsigned?_toDigits {negative : Bool} {n : Nat} {number : Number}
    (denotes : NumberText.number? ⟨negative, Nat.toDigits 10 n, [], none⟩ = some number) :
    readUnsigned? negative (Nat.toDigits 10 n ++ rest) = some (number, rest) := by
  rw [readUnsigned?, readWhole?_toDigits closes]
  simp only [Option.bind_eq_bind, Option.bind_some, readFraction?_of_closes closes,
    readExponent?_of_closes closes, denotes, Option.pure_def]

/-- An integer of 64 bits is read back as it was written. -/
theorem readNumber?_writeNumber {number : Number} (exact : number.IsExact) :
    readNumber? (writeNumber number rest) = some (number, rest) := by
  cases number with
  | real value => exact exact.elim
  | whole value =>
    obtain ⟨least, most⟩ := exact
    rw [Text.minInteger] at least
    rw [writeNumber, toList_toString]
    by_cases negative : value < 0
    · have denotes : NumberText.number? ⟨true, Nat.toDigits 10 value.natAbs, [], none⟩ =
          some (.whole value) := by
        have back : -(value.natAbs : Int) = value := by omega
        rw [number?_true_toDigits (by omega) (by omega), back]
      rw [if_pos negative, List.singleton_append, List.cons_append]
      exact readUnsigned?_toDigits closes denotes
    · have denotes : NumberText.number? ⟨false, Nat.toDigits 10 value.natAbs, [], none⟩ =
          some (.whole value) := by
        have back : (value.natAbs : Int) = value := by omega
        rw [number?_false_toDigits (by omega), back]
      have unsigned : ∀ tail, Nat.toDigits 10 value.natAbs ++ rest ≠ '-' :: tail := by
        obtain ⟨c, digits, given, digit⟩ := toDigits_eq_cons value.natAbs
        rw [given]
        intro tail same
        exact ne_of_isDigit digit (by decide) (List.cons.inj same).1
      rw [if_neg negative, List.nil_append, readNumber?]
      · exact readUnsigned?_toDigits closes denotes
      · exact unsigned

end Number

/-! ## Scalars -/

theorem words_eq : words =
    [(['n', 'u', 'l', 'l'], .null), (['t', 'r', 'u', 'e'], .bool true),
      (['f', 'a', 'l', 's', 'e'], .bool false)] := rfl

theorem readWord?_eq_none {c : Char} (apart : c ∉ ['n', 't', 'f']) (tail : List Char) :
    readWord? (c :: tail) = none := by
  have other : ∀ first ∈ ['n', 't', 'f'], (first == c) = false := by
    intro first member
    exact beq_false_of_ne fun same => apart (same ▸ member)
  simp only [List.forall_mem_cons] at other
  simp [readWord?, words_eq, List.isPrefixOf?, other]

theorem readScalar?_string (text rest : List Char) :
    readScalar? ('"' :: (escape text ++ '"' :: rest)) = some (.string (String.ofList text), rest) := by
  rw [readScalar?, readString?_escape]
  rfl

theorem lexemes?_mark {c : Char} {mark : Lexeme} (plain : isSpace c = false)
    (marks : punctuation? c = some mark) (rest : List Char) :
    lexemes? (c :: rest) = (lexemes? rest).map (mark :: ·) := by
  rw [lexemes?, plain, marks]
  rfl

theorem lexemes?_scalar {c : Char} {tail rest : List Char} {value : Json} (plain : isSpace c = false)
    (noMark : punctuation? c = none) (read : readScalar? (c :: tail) = some (value, rest)) :
    lexemes? (c :: tail) = (lexemes? rest).map (.scalar value :: ·) := by
  rw [lexemes?, plain, noMark]
  simp only [Bool.false_eq_true, ↓reduceIte]
  split
  · next found =>
    cases found.symm.trans read
    rfl
  · next missing => cases missing.symm.trans read

theorem lexemes?_writeString (text : String) (rest : List Char) :
    lexemes? (writeString text rest) = (lexemes? rest).map (.scalar (.string text) :: ·) := by
  have read := readScalar?_string text.toList rest
  rw [String.ofList_toList] at read
  rw [writeString, writeBody_eq]
  exact lexemes?_scalar rfl rfl read

theorem lexemes?_writeNumber {number : Number} (exact : number.IsExact) {rest : List Char}
    (closes : Closes rest) :
    lexemes? (writeNumber number rest) =
      (lexemes? rest).map (.scalar (.number number) :: ·) := by
  obtain ⟨c, tail, given, first⟩ := writeNumber_eq_cons exact rest
  have read := readNumber?_writeNumber closes exact
  rw [given] at read ⊢
  have ne : ∀ other, other ≠ '-' → other.isDigit = false → c ≠ other := by
    rintro other notMinus notDigit
    rcases first with rfl | digit
    · exact notMinus.symm
    · exact ne_of_isDigit digit notDigit
  refine lexemes?_scalar ?_ ?_ ?_
  · simp [isSpace, ne]
  · unfold punctuation?
    split
    case h_7 => rfl
    all_goals exact absurd rfl (ne _ (by decide) (by decide))
  · have noWord : readWord? (c :: tail) = none :=
      readWord?_eq_none (by simp [ne]) tail
    unfold readScalar?
    split
    · next same => exact absurd (List.cons.inj same).1 (ne _ (by decide) (by decide))
    · rw [noWord, read]
      rfl

/-! ## Values -/

mutual

/-- The marks and the scalars that a value is written with. -/
def lexemesOf : Json → List Lexeme
  | .array [] => [.beginArray, .endArray]
  | .array (item :: items) => .beginArray :: (lexemesOf item ++ lexemesOfItems items)
  | .object [] => [.beginObject, .endObject]
  | .object ((key, value) :: members) =>
    .beginObject :: .scalar (.string key) :: .colon :: (lexemesOf value ++ lexemesOfMembers members)
  | value => [.scalar value]

/-- Those of the items after the first one and of the end of an array. -/
def lexemesOfItems : List Json → List Lexeme
  | [] => [.endArray]
  | item :: items => .comma :: (lexemesOf item ++ lexemesOfItems items)

/-- Those of the members after the first one and of the end of an object. -/
def lexemesOfMembers : List (String × Json) → List Lexeme
  | [] => [.endObject]
  | (key, value) :: members =>
    .comma :: .scalar (.string key) :: .colon :: (lexemesOf value ++ lexemesOfMembers members)

end

theorem closes_writeItems (items : List Json) (rest : List Char) :
    Closes (writeItems items rest) := by
  cases items with
  | nil => exact closes_cons (by decide)
  | cons => rw [writeItems]; exact closes_cons (by decide)

theorem closes_writeMembers (members : List (String × Json)) (rest : List Char) :
    Closes (writeMembers members rest) := by
  cases members with
  | nil => exact closes_cons (by decide)
  | cons => rw [writeMembers]; exact closes_cons (by decide)

mutual

/-- The text of a value is cut into its lexemes. -/
theorem lexemes?_write {value : Json} (exact : value.HasExactNumbers) {rest : List Char}
    (closes : Closes rest) :
    lexemes? (write value rest) = (lexemes? rest).map (lexemesOf value ++ ·) := by
  match value with
  | .null => exact lexemes?_scalar rfl rfl rfl
  | .bool true => exact lexemes?_scalar rfl rfl rfl
  | .bool false => exact lexemes?_scalar rfl rfl rfl
  | .string text => exact lexemes?_writeString text rest
  | .number figure => exact lexemes?_writeNumber (exact _ .self figure rfl) closes
  | .array [] =>
    rw [write, lexemes?_mark rfl rfl, lexemes?_mark rfl rfl, Option.map_map]
    rfl
  | .array (item :: items) =>
    obtain ⟨first, later⟩ := List.forall_mem_cons.mp (hasExactNumbers_array_iff.mp exact)
    rw [write, lexemes?_mark rfl rfl, lexemes?_write first (closes_writeItems items rest),
      lexemes?_writeItems later rest, Option.map_map, Option.map_map, lexemesOf]
    simp [Function.comp_def]
  | .object [] =>
    rw [write, lexemes?_mark rfl rfl, lexemes?_mark rfl rfl, Option.map_map]
    rfl
  | .object ((key, next) :: members) =>
    obtain ⟨first, later⟩ := List.forall_mem_cons.mp (hasExactNumbers_object_iff.mp exact)
    rw [write, lexemes?_mark rfl rfl, lexemes?_writeString, lexemes?_mark rfl rfl,
      lexemes?_write first (closes_writeMembers members rest), lexemes?_writeMembers later rest,
      lexemesOf]
    simp [Function.comp_def]

theorem lexemes?_writeItems {items : List Json} (exact : ∀ item ∈ items, item.HasExactNumbers)
    (rest : List Char) :
    lexemes? (writeItems items rest) = (lexemes? rest).map (lexemesOfItems items ++ ·) := by
  match items with
  | [] =>
    rw [writeItems, lexemes?_mark rfl rfl]
    rfl
  | item :: items =>
    obtain ⟨first, later⟩ := List.forall_mem_cons.mp exact
    rw [writeItems, lexemes?_mark rfl rfl, lexemes?_write first (closes_writeItems items rest),
      lexemes?_writeItems later rest, lexemesOfItems]
    simp [Function.comp_def]

theorem lexemes?_writeMembers {members : List (String × Json)}
    (exact : ∀ entry ∈ members, entry.2.HasExactNumbers) (rest : List Char) :
    lexemes? (writeMembers members rest) =
      (lexemes? rest).map (lexemesOfMembers members ++ ·) := by
  match members with
  | [] =>
    rw [writeMembers, lexemes?_mark rfl rfl]
    rfl
  | (key, next) :: members =>
    obtain ⟨first, later⟩ := List.forall_mem_cons.mp exact
    rw [writeMembers, lexemes?_mark rfl rfl, lexemes?_writeString, lexemes?_mark rfl rfl,
      lexemes?_write first (closes_writeMembers members rest), lexemes?_writeMembers later rest,
      lexemesOfMembers]
    simp [Function.comp_def]

end

end MessageTemplate.Json
