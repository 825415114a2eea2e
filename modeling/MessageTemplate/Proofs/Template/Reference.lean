import MessageTemplate.Proofs.Template.TopLevel
import MessageTemplate.Proofs.Text.Trim

/-! # How references are read

Every reader of expressions takes a reference as a whole: it is no literal, has no blank outside of
quotes, holds none of the characters that expressions are cut at, and the search for references finds
it between texts that keep their distance. -/

namespace MessageTemplate.Template

open Text

/-! ## Characters -/

/-- The blank characters are no letters and no numerals, and no part of a name. -/
theorem not_word_of_isBlank {c : Char} (blank : isBlank c = true) :
    isAlphanumeric c = false ∧ isNameChar c = false := by
  have blanks : ∀ n ∈ blankRanges.flatMap fun range => List.range' range.1 (range.2 + 1 - range.1),
      isAlphanumeric (Char.ofNat n) = false ∧ isNameChar (Char.ofNat n) = false := by
    decide +kernel
  obtain ⟨range, member, low, high⟩ := (Ranges.has_eq_true_iff _ _).mp blank
  have listed := blanks c.toNat (List.mem_flatMap.mpr ⟨range, member, by
    rw [List.mem_range'_1]
    omega⟩)
  rwa [Char.ofNat_toNat] at listed

theorem isBlank_of_isReferenceChar {c : Char} (plain : isReferenceChar c = true) :
    isBlank c = false := by
  by_contra blank
  have letters := (not_word_of_isBlank (by simpa using blank)).1
  simp only [isReferenceChar, letters, Bool.false_or, Bool.or_eq_true, decide_eq_true_eq] at plain
  rcases plain with rfl | rfl
  · exact blank (by decide)
  · exact blank (by decide)

theorem isReferenceChar_of_isBlank {c : Char} (blank : isBlank c = true) :
    isReferenceChar c = false := by
  refine Bool.eq_false_iff.mpr fun word => ?_
  rw [isBlank_of_isReferenceChar word] at blank
  contradiction

theorem ne_of_isReferenceChar {c : Char} (plain : isReferenceChar c = true) (mark : Char)
    (other : isReferenceChar mark = false) : c ≠ mark := by
  rintro rfl
  rw [plain] at other
  contradiction

/-- The letters that names are written with stand behind the digits, and are ASCII. -/
theorem toNat_of_isAlpha {c : Char} (letter : c.isAlpha = true) :
    'A'.toNat ≤ c.toNat ∧ c.toNat ≤ 'z'.toNat := by
  rcases Bool.or_eq_true_iff.mp letter with upper | lower
  · obtain ⟨low, high⟩ := of_decide_eq_true upper
    exact ⟨UInt32.le_iff_toNat_le.mp low,
      Nat.le_trans (UInt32.le_iff_toNat_le.mp high) (by decide)⟩
  · obtain ⟨low, high⟩ := Bool.and_eq_true_iff.mp lower
    exact ⟨Nat.le_trans (by decide) (UInt32.le_iff_toNat_le.mp (of_decide_eq_true low)),
      UInt32.le_iff_toNat_le.mp (of_decide_eq_true high)⟩

theorem toNat_of_isDigit {c : Char} (digit : c.isDigit = true) : c.toNat ≤ '9'.toNat :=
  UInt32.le_iff_toNat_le.mp (of_decide_eq_true (Bool.and_eq_true_iff.mp digit).2)

theorem toNat_lt_of_isAlphanum {c : Char} (plain : c.isAlphanum = true) : c.toNat < 0x80 := by
  rcases Bool.or_eq_true_iff.mp plain with letter | digit
  · exact Nat.lt_of_le_of_lt (toNat_of_isAlpha letter).2 (by decide)
  · exact Nat.lt_of_le_of_lt (toNat_of_isDigit digit) (by decide)

theorem isReferenceChar_of_isAlphanum {c : Char} (plain : c.isAlphanum = true) :
    isReferenceChar c = true := by
  simp [isReferenceChar, isAlphanumeric, toNat_lt_of_isAlphanum plain, plain]

theorem isReferenceChar_of_isNameStart {c : Char} (starts : isNameStart c = true) :
    isReferenceChar c = true := by
  rcases Bool.or_eq_true_iff.mp starts with letter | underscore
  · exact isReferenceChar_of_isAlphanum (by simp [Char.isAlphanum, letter])
  · simp [isReferenceChar, eq_of_beq underscore]

/-- The first word of a path. -/
theorem all_isReferenceChar_cons {c : Char} {word : List Char} (starts : isNameStart c = true)
    (plain : word.all isReferenceChar = true) : (c :: word).all isReferenceChar = true := by
  simp [isReferenceChar_of_isNameStart starts, plain]

theorem isNameStart_of_not_isReferenceChar {c : Char} (other : isReferenceChar c = false) :
    isNameStart c = false := by
  refine Bool.eq_false_iff.mpr fun name => ?_
  rw [isReferenceChar_of_isNameStart name] at other
  contradiction

theorem isReferenceChar_of_isDigit {c : Char} (digit : c.isDigit = true) :
    isReferenceChar c = true :=
  isReferenceChar_of_isAlphanum (by simp [Char.isAlphanum, digit])

/-- Neither brackets nor parentheses. -/
def isFlat (c : Char) : Bool :=
  !Scan.isOpening c && !Scan.isClosing c

/-- The marks that the scan of an expression heeds. -/
def scanMarks : List Char := ['"', '\'', '(', '[', ')', ']']

section ScanMarks

variable {c : Char}

/-- A character of a class without marks is no mark. -/
theorem not_mem_scanMarks {inClass : Char → Bool} (given : inClass c = true)
    (apart : scanMarks.any inClass = false) : c ∉ scanMarks :=
  fun member => List.any_eq_false.mp apart c member given

theorem isQuote_of_not_mem (apart : c ∉ scanMarks) : isQuote c = false := by
  simp only [scanMarks, List.mem_cons, not_or] at apart
  simp [isQuote, apart]

theorem isFlat_of_not_mem (apart : c ∉ scanMarks) : isFlat c = true := by
  simp only [scanMarks, List.mem_cons, not_or] at apart
  simp [isFlat, Scan.isOpening, Scan.isClosing, apart]

/-- At a character that is no mark a text may be cut. -/
theorem admitsCut_of_not_mem (apart : c ∉ scanMarks) : Scan.start.admitsCut c = true := by
  have flat := isFlat_of_not_mem apart
  simp only [isFlat, Bool.and_eq_true, Bool.not_eq_true'] at flat
  simp [Scan.admitsCut, Scan.start, isQuote_of_not_mem apart, flat]

theorem not_mem_of_isReferenceChar (plain : isReferenceChar c = true) : c ∉ scanMarks :=
  not_mem_scanMarks plain rfl

end ScanMarks

theorem isQuote_of_isReferenceChar {c : Char} (plain : isReferenceChar c = true) :
    isQuote c = false :=
  isQuote_of_not_mem (not_mem_of_isReferenceChar plain)

theorem isFlat_of_isReferenceChar {c : Char} (plain : isReferenceChar c = true) :
    isFlat c = true :=
  isFlat_of_not_mem (not_mem_of_isReferenceChar plain)

/-! ## What stands between brackets -/

/-- What a step has between its brackets: quotes are closed, blanks stand in quotes only, and there
are no further brackets. -/
structure Inner (inner : List Char) : Prop where
  flat : ∀ c ∈ inner, isFlat c = true
  closed : inner.foldl nextQuote none = none
  solid : hasBlankFrom none inner = false

theorem foldl_nextQuote_eq_self {quote : Option Char} {text : List Char}
    (plain : ∀ c ∈ text, isQuote c = false) (given : ∀ c ∈ quote, isQuote c = true) :
    text.foldl nextQuote quote = quote := by
  induction text with
  | nil => rfl
  | cons c rest ih =>
    obtain ⟨first, others⟩ := List.forall_mem_cons.mp plain
    have same : nextQuote quote c = quote := by
      cases quote with
      | none => simp [nextQuote, first]
      | some opening =>
        have other : c ≠ opening := fun same => by
          rw [same, given opening rfl] at first
          contradiction
        simp [nextQuote, other]
    rw [List.foldl_cons, same, ih others]

theorem hasBlankFrom_append (quote : Option Char) (left right : List Char) :
    hasBlankFrom quote (left ++ right) =
      (hasBlankFrom quote left || hasBlankFrom (left.foldl nextQuote quote) right) := by
  induction left generalizing quote with
  | nil => rfl
  | cons c rest ih => simp only [List.cons_append, hasBlankFrom, ih, List.foldl_cons, Bool.or_assoc]

/-- There is no blank outside of quotes where there is none at all, or a quote is open. -/
theorem hasBlankFrom_eq_false {quote : Option Char} {text : List Char}
    (plain : ∀ c ∈ text, isQuote c = false) (given : ∀ c ∈ quote, isQuote c = true)
    (solid : quote = none → ∀ c ∈ text, isBlank c = false) : hasBlankFrom quote text = false := by
  induction text with
  | nil => rfl
  | cons c rest ih =>
    obtain ⟨first, others⟩ := List.forall_mem_cons.mp plain
    have same : [c].foldl nextQuote quote = quote :=
      foldl_nextQuote_eq_self (by simpa using first) given
    rw [List.foldl_cons, List.foldl_nil] at same
    rw [hasBlankFrom, same, ih others fun absent d member =>
      solid absent d (List.mem_cons_of_mem _ member), Bool.or_false]
    cases quote with
    | none => simp [solid rfl c List.mem_cons_self]
    | some opening => rfl

theorem isKeyChar_cases {c : Char} (plain : isKeyChar c = true) :
    isQuote c = false ∧ isFlat c = true := by
  rcases Bool.or_eq_true_iff.mp plain with word | space
  · exact ⟨isQuote_of_isReferenceChar word, isFlat_of_isReferenceChar word⟩
  · rw [of_decide_eq_true space]
    decide

theorem isQuote_cases {quote : Char} (isMark : isQuote quote = true) :
    quote = '"' ∨ quote = '\'' := by
  simpa [isQuote] using isMark

namespace ReferenceStep

theorem inner_of_position {digits : List Char} (plain : digits.all Char.isDigit = true) :
    Inner digits := by
  have words : ∀ c ∈ digits, isReferenceChar c = true := fun c member =>
    isReferenceChar_of_isDigit (List.all_eq_true.mp plain c member)
  have quoteless : ∀ c ∈ digits, isQuote c = false := fun c member =>
    isQuote_of_isReferenceChar (words c member)
  exact ⟨fun c member => isFlat_of_isReferenceChar (words c member),
    foldl_nextQuote_eq_self quoteless (by simp),
    hasBlankFrom_eq_false quoteless (by simp) fun _ c member =>
      isBlank_of_isReferenceChar (words c member)⟩

/-- Opening a quote. -/
theorem foldl_mark_none {escaped : Bool} {quote : Char} (isMark : isQuote quote = true) :
    (mark escaped quote).foldl nextQuote none = some quote := by
  rcases isQuote_cases isMark with rfl | rfl <;> cases escaped <;> rfl

/-- Closing a quote. -/
theorem foldl_mark_some {escaped : Bool} {quote : Char} (isMark : isQuote quote = true) :
    (mark escaped quote).foldl nextQuote (some quote) = none := by
  rcases isQuote_cases isMark with rfl | rfl <;> cases escaped <;> rfl

theorem mark_cases {escaped : Bool} {quote c : Char} (isMark : isQuote quote = true)
    (member : c ∈ mark escaped quote) : isFlat c = true ∧ isBlank c = false := by
  rcases isQuote_cases isMark with rfl | rfl
  all_goals
    cases escaped
    all_goals
      simp only [mark, Bool.false_eq_true, ↓reduceIte, List.mem_cons, List.not_mem_nil,
        or_false] at member
      first
        | rw [member]; decide
        | rcases member with rfl | rfl <;> decide

theorem inner_of_quoted {escaped : Bool} {quote : Char} {key : List Char}
    (isMark : isQuote quote = true) (plain : key.all isKeyChar = true) :
    Inner (mark escaped quote ++ key ++ mark escaped quote) := by
  have chars : ∀ c ∈ key, isQuote c = false ∧ isFlat c = true := fun c member =>
    isKeyChar_cases (List.all_eq_true.mp plain c member)
  have quoteless : ∀ c ∈ key, isQuote c = false := fun c member => (chars c member).1
  have held : ∀ c ∈ some quote, isQuote c = true := by simpa using isMark
  have solid : hasBlankFrom none (mark escaped quote) = false ∧
      hasBlankFrom (some quote) (mark escaped quote) = false := by
    rcases isQuote_cases isMark with rfl | rfl <;> cases escaped <;> decide
  refine ⟨fun c member => ?_, ?_, ?_⟩
  · simp only [List.mem_append] at member
    rcases member with (first | inside) | last
    · exact (mark_cases isMark first).1
    · exact (chars c inside).2
    · exact (mark_cases isMark last).1
  · rw [List.foldl_append, List.foldl_append, foldl_mark_none isMark,
      foldl_nextQuote_eq_self quoteless held, foldl_mark_some isMark]
  · rw [hasBlankFrom_append, hasBlankFrom_append, List.foldl_append, foldl_mark_none isMark,
      foldl_nextQuote_eq_self quoteless held, solid.1, solid.2,
      hasBlankFrom_eq_false quoteless held (by simp)]
    rfl

/-- A step is a word behind a dot, or stands between brackets. -/
theorem text_eq {step : ReferenceStep} (written : step.isWritten = true) :
    (∃ c word, step.text = '.' :: c :: word ∧ isReferenceChar c = true ∧
        word.all isReferenceChar = true) ∨
      ∃ inner, step.text = '[' :: (inner ++ [']']) ∧ Inner inner := by
  cases step with
  | property word =>
    obtain ⟨full, plain⟩ := Bool.and_eq_true_iff.mp written
    cases word with
    | nil => contradiction
    | cons c word =>
      obtain ⟨first, others⟩ := Bool.and_eq_true_iff.mp plain
      exact .inl ⟨c, word, rfl, first, others⟩
  | position digits =>
    obtain ⟨-, plain⟩ := Bool.and_eq_true_iff.mp written
    exact .inr ⟨digits, rfl, inner_of_position plain⟩
  | quoted escaped quote key =>
    obtain ⟨isMark, plain⟩ := Bool.and_eq_true_iff.mp written
    exact .inr ⟨_, rfl, inner_of_quoted isMark plain⟩

end ReferenceStep

/-! ## Steps are not cut -/

theorem Inner.foldl_scan {inner : List Char} (flat : ∀ c ∈ inner, isFlat c = true)
    (quote : Option Char) (nesting : Nat) :
    inner.foldl Scan.next ⟨quote, nesting⟩ = ⟨inner.foldl nextQuote quote, nesting⟩ := by
  induction inner generalizing quote with
  | nil => rfl
  | cons c rest ih =>
    obtain ⟨first, others⟩ := List.forall_mem_cons.mp flat
    simp only [isFlat, Bool.and_eq_true, Bool.not_eq_true'] at first
    rw [List.foldl_cons, List.foldl_cons, ← ih others]
    cases quote <;> simp [Scan.next, Scan.nextNesting, first]

/-- Nothing is cut inside of brackets. -/
theorem splitFrom_of_nesting {separator : Char} {inner : List Char}
    (flat : ∀ c ∈ inner, isFlat c = true) (quote : Option Char) (nesting : Nat) :
    splitFrom separator ⟨quote, nesting + 1⟩ inner = [inner] := by
  induction inner generalizing quote with
  | nil => rfl
  | cons c rest ih =>
    obtain ⟨-, others⟩ := List.forall_mem_cons.mp flat
    have next := @Inner.foldl_scan [c] (by simpa using flat c List.mem_cons_self) quote
      (nesting + 1)
    rw [List.foldl_cons, List.foldl_nil] at next
    rw [splitFrom, if_neg (by simp [Scan.admitsCut]), next, ih others]
    rfl

/-- Separators that stand in no reference. -/
structure IsApart (separator : Char) : Prop where
  plain : IsSeparator separator
  wordless : isReferenceChar separator = false
  dotless : separator ≠ '.'

section Separator

variable {separator : Char} {nesting : Nat}

theorem sealed_of_inner {inner : List Char} (closes : Inner inner) :
    Sealed separator nesting ('[' :: (inner ++ [']'])) := by
  have inside := Inner.foldl_scan closes.flat none (nesting + 1)
  rw [closes.closed] at inside
  exact Sealed.bracketed ⟨splitFrom_of_nesting closes.flat none nesting, inside⟩

variable (apart : IsApart separator)
include apart

theorem sealed_of_words {word : List Char} (plain : word.all isReferenceChar = true) :
    Sealed separator nesting word :=
  .of_all fun _ member =>
    have char := List.all_eq_true.mp plain _ member
    ⟨admitsCut_of_not_mem (not_mem_of_isReferenceChar char),
      ne_of_isReferenceChar char separator apart.wordless⟩

theorem ReferenceStep.sealed {step : ReferenceStep} (written : step.isWritten = true) :
    Sealed separator nesting step.text := by
  obtain ⟨c, word, text, first, plain⟩ | ⟨inner, text, closes⟩ := ReferenceStep.text_eq written
  · rw [text]
    have dot : Sealed separator nesting ['.'] := .singleton (by decide) (Ne.symm apart.dotless)
    have whole : (c :: word).all isReferenceChar = true := by simp [first, plain]
    exact dot.append (sealed_of_words apart whole)
  · rw [text]
    exact sealed_of_inner closes

theorem sealed_of_steps {steps : List ReferenceStep}
    (written : steps.all ReferenceStep.isWritten = true) :
    Sealed separator nesting (Reference.textOfSteps steps) :=
  .flatMap fun step member =>
    ReferenceStep.sealed apart (List.all_eq_true.mp written step member)

theorem Reference.sealed (reference : Reference) : Sealed separator nesting reference.text :=
  (sealed_of_words apart (all_isReferenceChar_cons reference.starts reference.plain)).append
    (sealed_of_steps apart reference.written)

end Separator

/-! ## Steps are taken as a whole -/

theorem closeBracket?_append {quote : Option Char} {inner : List Char} (tail : List Char)
    (flat : ∀ c ∈ inner, isFlat c = true) (closed : inner.foldl nextQuote quote = none) :
    closeBracket? quote (inner ++ ']' :: tail) = some (inner ++ [']'], tail) := by
  induction inner generalizing quote with
  | nil =>
    obtain rfl : quote = none := closed
    rfl
  | cons c rest ih =>
    obtain ⟨first, others⟩ := List.forall_mem_cons.mp flat
    have other : c ≠ ']' := fun same => by rw [same] at first; contradiction
    rw [List.cons_append, closeBracket?, if_neg (by simp [other]), ih others closed]
    rfl

theorem takeWhile_word {word tail : List Char} (plain : word.all isReferenceChar = true)
    (stops : ∀ c ∈ tail.head?, isReferenceChar c = false) :
    (word ++ tail).takeWhile isReferenceChar = word ∧
      (word ++ tail).dropWhile isReferenceChar = tail := by
  have chars := List.all_eq_true.mp plain
  rw [List.takeWhile_append_of_pos chars, List.dropWhile_append_of_pos chars]
  cases tail with
  | nil => simp
  | cons c rest => simp [stops c rfl]

/-- Nothing is taken where no step starts. -/
theorem takeSteps_of_ne {c : Char} (rest : List Char) (dot : c ≠ '.') (bracket : c ≠ '[') :
    takeSteps (c :: rest) = ([], c :: rest) := by
  rw [takeSteps.eq_def]
  simp only [if_neg dot, if_neg bracket]

/-- A property is taken. -/
theorem takeSteps_property {c : Char} (rest : List Char) (plain : isReferenceChar c = true) :
    takeSteps ('.' :: c :: rest) =
      ('.' :: c :: (rest.takeWhile isReferenceChar ++
        (takeSteps (rest.dropWhile isReferenceChar)).1),
        (takeSteps (rest.dropWhile isReferenceChar)).2) := by
  rw [takeSteps.eq_def]
  simp only [↓reduceIte, plain]

/-- A dot without a property behind it is not taken. -/
theorem takeSteps_dot {rest : List Char} (stops : ∀ c ∈ rest.head?, isReferenceChar c = false) :
    takeSteps ('.' :: rest) = ([], '.' :: rest) := by
  rw [takeSteps.eq_def]
  cases rest with
  | nil => rfl
  | cons c rest => simp only [↓reduceIte, stops c rfl, Bool.false_eq_true]

/-- Brackets are taken. -/
theorem takeSteps_brackets {rest inner tail : List Char}
    (closed : closeBracket? none rest = some (inner, tail)) :
    takeSteps ('[' :: rest) =
      ('[' :: (inner ++ (takeSteps tail).1), (takeSteps tail).2) := by
  rw [takeSteps.eq_def]
  simp only [Char.reduceEq, ↓reduceIte]
  split
  · next same =>
    cases same.symm.trans closed
    rfl
  · next none => cases none.symm.trans closed

theorem takeSteps_of_startsApart {tail : List Char} (apart : StartsApart tail) :
    takeSteps tail = ([], tail) := by
  cases tail with
  | nil => rw [takeSteps]
  | cons c rest =>
    obtain ⟨-, bracket, stops⟩ := apart c rfl
    by_cases dot : c = '.'
    · rw [dot]
      exact takeSteps_dot (stops dot)
    · exact takeSteps_of_ne rest dot bracket

theorem head?_textOfSteps_append (steps : List ReferenceStep) {tail : List Char}
    (apart : StartsApart tail) :
    ∀ c ∈ (Reference.textOfSteps steps ++ tail).head?, isReferenceChar c = false := by
  intro c first
  cases steps with
  | nil => exact (apart c first).1
  | cons step rest =>
    cases step with
    | property => cases first; decide
    | position => cases first; decide
    | quoted => cases first; decide

theorem takeSteps_textOfSteps {steps : List ReferenceStep} {tail : List Char}
    (written : steps.all ReferenceStep.isWritten = true) (apart : StartsApart tail) :
    takeSteps (Reference.textOfSteps steps ++ tail) = (Reference.textOfSteps steps, tail) := by
  induction steps with
  | nil => exact takeSteps_of_startsApart apart
  | cons step rest ih =>
    obtain ⟨first, others⟩ := Bool.and_eq_true_iff.mp written
    have whole : Reference.textOfSteps (step :: rest) =
        step.text ++ Reference.textOfSteps rest := rfl
    rw [whole, List.append_assoc]
    obtain ⟨c, word, text, start, plain⟩ | ⟨inner, text, closes⟩ := ReferenceStep.text_eq first
    · obtain ⟨taken, dropped⟩ := takeWhile_word plain (head?_textOfSteps_append rest apart)
      rw [text, List.cons_append, List.cons_append, takeSteps_property _ start, taken, dropped,
        ih others]
      rfl
    · have closed := closeBracket?_append (Reference.textOfSteps rest ++ tail) closes.flat
        closes.closed
      rw [text, List.cons_append, List.append_assoc, List.singleton_append,
        takeSteps_brackets closed, ih others]
      rfl

theorem Reference.takePath_text (reference : Reference) {tail : List Char} (apart : StartsApart tail) :
    takePath (reference.word ++ textOfSteps reference.steps ++ tail) =
      (reference.word ++ textOfSteps reference.steps, tail) := by
  obtain ⟨taken, dropped⟩ := takeWhile_word reference.plain
    (head?_textOfSteps_append reference.steps apart)
  rw [takePath, List.append_assoc, taken, dropped, takeSteps_textOfSteps reference.written apart]

/-! ## References are no literals -/

theorem Reference.exists_mark (reference : Reference) :
    ∃ c ∈ reference.text, c = '.' ∨ c = '[' := by
  obtain ⟨step, rest, given⟩ := List.exists_cons_of_ne_nil reference.continued
  have member : ∀ c ∈ step.text, c ∈ reference.text := fun c inside => by
    simp [text, textOfSteps, given, inside]
  cases step with
  | property word => exact ⟨'.', member _ List.mem_cons_self, .inl rfl⟩
  | position digits => exact ⟨'[', member _ List.mem_cons_self, .inr rfl⟩
  | quoted escaped quote key => exact ⟨'[', member _ List.mem_cons_self, .inr rfl⟩

theorem ne_of_isNameStart {c : Char} (starts : isNameStart c = true) (mark : Char)
    (other : isNameStart mark = false) : c ≠ mark := by
  rintro rfl
  rw [starts] at other
  contradiction

theorem isDigit_of_isNameStart {c : Char} (starts : isNameStart c = true) : c.isDigit = false := by
  by_contra digit
  have high := toNat_of_isDigit (by simpa using digit)
  rcases Bool.or_eq_true_iff.mp starts with letter | underscore
  · have := Nat.le_trans (toNat_of_isAlpha letter).1 high
    contradiction
  · rw [eq_of_beq underscore] at high
    contradiction

section Literals

variable {c : Char} {rest : List Char} (starts : isNameStart c = true)
  (marked : ∃ d ∈ c :: rest, d = '.' ∨ d = '[')

include marked in
/-- A text with a dot or a bracket is none of the words that have neither. -/
theorem ofList_ne_of_marked {word : String} (plain : '.' ∉ word.toList ∧ '[' ∉ word.toList) :
    String.ofList (c :: rest) ≠ word := by
  rintro rfl
  obtain ⟨d, member, rfl | rfl⟩ := marked
  · exact plain.1 (by simpa using member)
  · exact plain.2 (by simpa using member)

include marked in
theorem word?_eq_none : Decimal.word? (c :: rest) = none := by
  have lowered : ∃ d ∈ (c :: rest).map Char.toLower, d = '.' ∨ d = '[' := by
    obtain ⟨d, member, rfl | rfl⟩ := marked
    · exact ⟨'.', List.mem_map_of_mem member, .inl rfl⟩
    · exact ⟨'[', List.mem_map_of_mem member, .inr rfl⟩
  have other : ∀ word : String, '.' ∉ word.toList ∧ '[' ∉ word.toList →
      String.ofList ((c :: rest).map Char.toLower) ≠ word := fun _ plain =>
    ofList_ne_of_marked lowered plain
  unfold Decimal.word?
  split
  · next same => exact absurd same (other _ (by decide))
  · next same => exact absurd same (other _ (by decide))
  · next same => exact absurd same (other _ (by decide))
  · rfl

include starts in
theorem unsigned?_eq_none : Decimal.unsigned? (c :: rest) = none := by
  have digit := isDigit_of_isNameStart starts
  have dot := ne_of_isNameStart starts '.' (by decide)
  simp [Decimal.unsigned?, Decimal.spanDigits, digit, dot]

include starts marked in
theorem float?_eq_none : Decimal.float? (c :: rest) = none := by
  have plus := ne_of_isNameStart starts '+' (by decide)
  have minus := ne_of_isNameStart starts '-' (by decide)
  unfold Decimal.float?
  split
  · next same => exact absurd (List.cons.inj same).1 plus
  · next same => exact absurd (List.cons.inj same).1 minus
  · simp only [word?_eq_none marked, unsigned?_eq_none starts]
    rfl

include starts marked in
/-- A text that starts as a name does and has a dot or a bracket is no literal. -/
theorem literalArgument?_eq_none : literalArgument? (c :: rest) = none := by
  have quote := isQuote_of_isReferenceChar (isReferenceChar_of_isNameStart starts)
  have unquoted : unquote? (c :: rest) = none := by simp [unquote?, quote]
  have other : ∀ word : String, '.' ∉ word.toList ∧ '[' ∉ word.toList →
      String.ofList (c :: rest) ≠ word := fun _ plain => ofList_ne_of_marked marked plain
  rw [literalArgument?, unquoted, float?_eq_none starts marked]
  simp only
  split
  case h_7 => rfl
  all_goals
    next same => exact absurd same (other _ (by decide))

end Literals

theorem Reference.not_mem_keywords (reference : Reference) :
    keywords.contains (String.ofList reference.text) = false := by
  have plain : ∀ word ∈ keywords, '.' ∉ word.toList ∧ '[' ∉ word.toList := by decide
  rw [List.contains_eq_mem, decide_eq_false_iff_not]
  exact fun member => ofList_ne_of_marked reference.exists_mark (plain _ member) rfl

theorem Reference.literalArgument?_text (reference : Reference) :
    literalArgument? reference.text = none :=
  literalArgument?_eq_none reference.starts reference.exists_mark

theorem hasBlankFrom_of_words {word : List Char} (plain : word.all isReferenceChar = true) :
    hasBlankFrom none word = false :=
  hasBlankFrom_eq_false
    (fun c member => isQuote_of_isReferenceChar (List.all_eq_true.mp plain c member)) (by simp)
    fun _ c member => isBlank_of_isReferenceChar (List.all_eq_true.mp plain c member)

theorem foldl_nextQuote_of_words {word : List Char} (plain : word.all isReferenceChar = true) :
    word.foldl nextQuote none = none :=
  foldl_nextQuote_eq_self
    (fun c member => isQuote_of_isReferenceChar (List.all_eq_true.mp plain c member)) (by simp)

/-- A step leaves no quote open and has blanks in quotes only. -/
theorem ReferenceStep.quotes {step : ReferenceStep} (written : step.isWritten = true) :
    step.text.foldl nextQuote none = none ∧ hasBlankFrom none step.text = false := by
  obtain ⟨c, word, text, start, plain⟩ | ⟨inner, text, closes⟩ := ReferenceStep.text_eq written
  · have whole : (c :: word).all isReferenceChar = true := by simp [start, plain]
    have dotted : nextQuote none '.' = none := rfl
    rw [text, List.foldl_cons, hasBlankFrom, dotted, foldl_nextQuote_of_words whole,
      hasBlankFrom_of_words whole]
    exact ⟨rfl, rfl⟩
  · have opened : nextQuote none '[' = none := rfl
    rw [text, List.foldl_cons, hasBlankFrom, opened, List.foldl_append, hasBlankFrom_append,
      closes.closed, closes.solid]
    exact ⟨rfl, rfl⟩

theorem quotes_of_steps {steps : List ReferenceStep}
    (written : steps.all ReferenceStep.isWritten = true) :
    (Reference.textOfSteps steps).foldl nextQuote none = none ∧
      hasBlankFrom none (Reference.textOfSteps steps) = false := by
  induction steps with
  | nil => exact ⟨rfl, rfl⟩
  | cons step rest ih =>
    obtain ⟨first, others⟩ := Bool.and_eq_true_iff.mp written
    obtain ⟨closed, solid⟩ := ReferenceStep.quotes first
    obtain ⟨more, further⟩ := ih others
    have whole : Reference.textOfSteps (step :: rest) =
        step.text ++ Reference.textOfSteps rest := rfl
    rw [whole, List.foldl_append, hasBlankFrom_append, closed, solid, more, further]
    exact ⟨rfl, rfl⟩

theorem Reference.hasBlankFrom_text (reference : Reference) :
    hasBlankFrom none reference.text = false := by
  have words := all_isReferenceChar_cons reference.starts reference.plain
  have whole : reference.text =
      (reference.start :: reference.word) ++ textOfSteps reference.steps := rfl
  rw [whole, hasBlankFrom_append, foldl_nextQuote_of_words words, hasBlankFrom_of_words words,
    (quotes_of_steps reference.written).2]
  rfl

/-- Characters that a reference may end with. -/
def EndsStep (text : List Char) : Prop :=
  ∀ c ∈ text.getLast?, isReferenceChar c = true ∨ c = ']'

theorem EndsStep.append {left right : List Char} (first : EndsStep left) (last : EndsStep right) :
    EndsStep (left ++ right) := by
  intro c member
  rw [List.getLast?_append, Option.mem_def, Option.or_eq_some_iff] at member
  rcases member with inside | ⟨-, before⟩
  · exact last c inside
  · exact first c before

theorem endsStep_of_words {word : List Char} (plain : word.all isReferenceChar = true) :
    EndsStep word := fun _ last =>
  .inl (List.all_eq_true.mp plain _ (List.mem_of_getLast? last))

theorem ReferenceStep.endsStep {step : ReferenceStep} (written : step.isWritten = true) :
    EndsStep step.text := by
  obtain ⟨c, word, text, start, plain⟩ | ⟨inner, text, closes⟩ := ReferenceStep.text_eq written
  · intro d last
    rw [text, List.getLast?_cons_cons] at last
    exact endsStep_of_words (by simp [start, plain]) d last
  · intro d last
    rw [text, ← List.cons_append, List.getLast?_concat] at last
    exact .inr (Option.some.inj last).symm

theorem endsStep_of_steps {steps : List ReferenceStep}
    (written : steps.all ReferenceStep.isWritten = true) :
    EndsStep (Reference.textOfSteps steps) := by
  induction steps with
  | nil => exact fun c last => by simp [Reference.textOfSteps] at last
  | cons step rest ih =>
    obtain ⟨first, others⟩ := Bool.and_eq_true_iff.mp written
    exact (ReferenceStep.endsStep first).append (ih others)

theorem Reference.endsStep (reference : Reference) : EndsStep reference.text :=
  (endsStep_of_words (all_isReferenceChar_cons reference.starts reference.plain)).append
    (endsStep_of_steps reference.written)

theorem Reference.tight (reference : Reference) : Tight reference.text := by
  refine ⟨fun c first => ?_, fun c last => ?_⟩
  · cases first
    exact isBlank_of_isReferenceChar (isReferenceChar_of_isNameStart reference.starts)
  · rcases reference.endsStep c last with word | rfl
    · exact isBlank_of_isReferenceChar word
    · decide

theorem Reference.isLiteral_text (reference : Reference) :
    isLiteral (String.ofList reference.text) = false := by
  have round := ne_of_isNameStart reference.starts '(' (by decide)
  rw [isLiteral, String.toList_ofList, trim_eq_self reference.tight,
    reference.literalArgument?_text]
  simp [text, round]

theorem Reference.hasUnquotedBlank_text (reference : Reference) :
    hasUnquotedBlank (String.ofList reference.text) = false := by
  rw [hasUnquotedBlank, String.toList_ofList, trim_eq_self reference.tight,
    reference.hasBlankFrom_text]

end MessageTemplate.Template
