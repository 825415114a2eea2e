import MessageTemplate.Template.WrittenExpression
import MessageTemplate.Proofs.Template.Quoted

/-! # The paths of written expressions

The search for paths reads a written expression part by part. Quoted texts, numbers, reserved words,
operators and labels are passed, and behind each of them the search goes on as at the start of a text; a
variable is found as its path. So the paths of an expression are those of its variables, in the order of
its text (`identifiers_written`). -/

namespace MessageTemplate.Template

open Text

/-! ## What the search skips -/

section Skipping

variable {before : Option Char} {tail : List Char}

/-- What stands before a text does not matter unless it joins a word. -/
theorem references_of_fresh (fresh : before.any joinsWord = false) (text : List Char) :
    references before text = references none text := by
  cases text with
  | nil => rw [references, references]
  | cons c rest =>
    rw [references, references]
    simp only [fresh, Option.any_none]

/-- Characters that start no path and open no quote are passed. -/
theorem references_skip_all {text : List Char}
    (passes : ∀ c ∈ text, isQuote c = false ∧ isNameStart c = false) :
    references before (text ++ tail) = references (text.getLast?.or before) tail := by
  induction text generalizing before with
  | nil => rfl
  | cons c rest ih =>
    obtain ⟨⟨quote, other⟩, others⟩ := List.forall_mem_cons.mp passes
    rw [List.cons_append, references_skip (by simp [quote]) (by simp [other]), ih others]
    cases rest with
    | nil => rfl
    | cons d rest => simp [List.getLast?_cons]

/-- Blanks are passed. -/
theorem references_gap {gap : List Char} (isGap : IsGap gap) (fresh : before.any joinsWord = false) :
    references before (gap ++ tail) = references none tail := by
  rw [references_skip_all fun c member => ⟨isQuote_of_not_mem (not_mem_scanMarks (isGap c member) rfl),
    isNameStart_of_not_isReferenceChar (isReferenceChar_of_isBlank (isGap c member))⟩]
  refine references_of_fresh ?_ tail
  cases last : gap.getLast? with
  | none => exact fresh
  | some c =>
    have blank := isGap c (List.mem_of_getLast? last)
    simpa using joinsWord_of_not_isReferenceChar (isReferenceChar_of_isBlank blank)

/-- A quoted text is passed. -/
theorem references_quoted {quote : Char} {content : List Char} (isMark : isQuote quote = true)
    (absent : quote ∉ content) :
    references before (quote :: (content ++ [quote]) ++ tail) = references none tail := by
  have inside : (content ++ quote :: tail).dropWhile (· ≠ quote) = quote :: tail := by
    have others : ∀ c ∈ content, decide (c ≠ quote) = true := fun c member => by
      rw [decide_eq_true_eq]
      rintro rfl
      exact absent member
    rw [List.dropWhile_append_of_pos others, List.dropWhile_cons_of_neg (by simp)]
  have whole : quote :: (content ++ [quote]) ++ tail = quote :: (content ++ quote :: tail) := by simp
  rw [whole, references_quote isMark, inside, List.drop_one, List.tail_cons]
  refine references_of_fresh ?_ tail
  rcases isQuote_cases isMark with rfl | rfl <;> decide

end Skipping

/-! ## What sets an operand off -/

section Setting

variable {gap tail : List Char} {c : Char}

theorem startsApart_nil : StartsApart [] :=
  fun _ first => nomatch first

theorem startsApart_cons (other : isReferenceChar c = false) (bracket : c ≠ '[') (dot : c ≠ '.')
    (rest : List Char) : StartsApart (c :: rest) := by
  rintro d ⟨rfl⟩
  exact ⟨other, bracket, fun same => absurd same dot⟩

theorem isLabelled_cons (dark : isBlank c = false) (other : c ≠ ':') (rest : List Char) :
    isLabelled (c :: rest) = false := by
  rw [isLabelled, trimStart, List.dropWhile_cons_of_neg (by simp [dark])]
  simpa using other

/-- A gap sets off, unless it is empty. -/
theorem IsGap.startsApart (isGap : IsGap gap) (apart : gap = [] → StartsApart tail) :
    StartsApart (gap ++ tail) := by
  cases gap with
  | nil => exact apart rfl
  | cons c rest =>
    have blank := isGap c List.mem_cons_self
    exact startsApart_cons (isReferenceChar_of_isBlank blank) (ne_of_isBlank blank '[' (by decide))
      (ne_of_isBlank blank '.' (by decide)) (rest ++ tail)

theorem IsGap.follows (isGap : IsGap gap) (apart : gap = [] → StartsApart tail)
    (unlabelled : isLabelled tail = false) : Follows (gap ++ tail) where
  apart := isGap.startsApart apart
  unlabelled := by
    rw [isLabelled, isGap.trimStart_append, ← isLabelled, unlabelled]

theorem follows_nil : Follows [] :=
  ⟨startsApart_nil, rfl⟩

theorem follows_comma (tail : List Char) : Follows (',' :: tail) :=
  ⟨startsApart_cons (by decide) (by decide) (by decide) tail,
    isLabelled_cons (by decide) (by decide) tail⟩

end Setting

/-! ## Words -/

section Words

variable {before : Option Char} {c : Char} {word tail : List Char}
  (starts : isNameStart c = true) (plain : word.all isReferenceChar = true)
  (fresh : before.any joinsWord = false) (apart : StartsApart tail)
include starts plain fresh apart

/-- A path is found as a whole, whatever its steps are, if they are taken as a whole. -/
theorem references_of_takeSteps {steps : List Char}
    (stops : ∀ c ∈ (steps ++ tail).head?, isReferenceChar c = false)
    (taken : takeSteps (steps ++ tail) = (steps, tail)) :
    references before (c :: (word ++ steps) ++ tail) =
      listed (c :: (word ++ steps)) tail ++ references none tail := by
  obtain ⟨first, rest⟩ := takeWhile_word plain stops
  refine references_of_takePath starts fresh apart ?_
  rw [List.append_assoc, takePath, first, rest, taken]

theorem references_word :
    references before (c :: word ++ tail) = listed (c :: word) tail ++ references none tail := by
  have found := @references_of_takeSteps before c word tail starts plain fresh apart []
    (fun c first => (apart c first).1) (takeSteps_of_startsApart apart)
  simpa using found

end Words

/-- Reserved words are passed. -/
theorem references_keyword {before : Option Char} {word : String} {tail : List Char}
    (reserved : word ∈ keywords) (fresh : before.any joinsWord = false) (apart : StartsApart tail) :
    references before (word.toList ++ tail) = references none tail := by
  have words : ∀ word ∈ keywords, isName word.toList = true ∧
      word.toList.all isReferenceChar = true := by decide
  obtain ⟨named, plain⟩ := words word reserved
  cases given : word.toList with
  | nil =>
    rw [given] at named
    contradiction
  | cons c rest =>
    rw [given] at named plain
    have skipped : listed (c :: rest) tail = [] := by
      rw [listed, ← given, String.ofList_toList]
      exact if_pos (by simp [reserved])
    rw [references_word (Bool.and_eq_true_iff.mp named).1 (Bool.and_eq_true_iff.mp plain).2 fresh
      apart, skipped, List.nil_append]

namespace Written

theorem Gap.isSealed (gap : Gap) : Sealed '|' 0 gap.text :=
  gap.isGap.sealed (by decide) 0

/-! ## Paths -/

/-- The bracket behind a quoted key closes, whatever the key holds. -/
theorem closeBracket?_of_quote {quote : Char} {content tail : List Char} (absent : quote ∉ content) :
    closeBracket? (some quote) (content ++ quote :: ']' :: tail) =
      some (content ++ [quote, ']'], tail) := by
  induction content with
  | nil =>
    have closed : nextQuote (some quote) quote = none := by simp [nextQuote]
    rw [List.nil_append, closeBracket?, if_neg (by simp), closed]
    rfl
  | cons c rest ih =>
    obtain ⟨other, others⟩ := List.ne_and_not_mem_of_not_mem_cons absent
    have stays : nextQuote (some quote) c = some quote := by simp [nextQuote, other.symm]
    rw [List.cons_append, closeBracket?, if_neg (by simp), stays, ih others]
    rfl

namespace Step

/-- A step is a word behind a dot, or stands between brackets that close. -/
theorem text_eq (step : Step) :
    (∃ c word, step.text = '.' :: c :: word ∧ isReferenceChar c = true ∧
        word.all isReferenceChar = true) ∨
      ∃ inner, step.text = '[' :: (inner ++ [']']) ∧ Sealed '|' 1 inner ∧
        ∀ tail, closeBracket? none (inner ++ ']' :: tail) = some (inner ++ [']'], tail) := by
  cases step with
  | property word full plain =>
    obtain ⟨c, word, rfl⟩ := List.exists_cons_of_ne_nil full
    obtain ⟨first, others⟩ := Bool.and_eq_true_iff.mp plain
    exact .inl ⟨c, word, rfl, first, others⟩
  | position digits =>
    have inner := ReferenceStep.inner_of_position digits.plain
    have inside := Inner.foldl_scan inner.flat none 1
    rw [inner.closed] at inside
    exact .inr ⟨digits.text, rfl, ⟨splitFrom_of_nesting inner.flat none 0, inside⟩,
      fun tail => closeBracket?_append tail inner.flat inner.closed⟩
  | key quoted =>
    refine .inr ⟨quoted.text, rfl, .quoted quoted.isMark quoted.absent, fun tail => ?_⟩
    have opened : nextQuote none quoted.quote = some quoted.quote := by
      simp [nextQuote, quoted.isMark]
    have other : quoted.quote ≠ ']' := by
      rcases isQuote_cases quoted.isMark with same | same <;> rw [same] <;> decide
    have closed := @closeBracket?_of_quote _ _ tail quoted.absent
    have whole : quoted.text ++ ']' :: tail =
        quoted.quote :: (quoted.content ++ quoted.quote :: ']' :: tail) := by simp [Quoted.text]
    rw [whole, closeBracket?, if_neg (by simp [other]), opened, closed]
    simp [Quoted.text]

theorem isSealed (step : Step) : Sealed '|' 0 step.text := by
  obtain ⟨c, word, text, first, plain⟩ | ⟨inner, text, isSealed, -⟩ := step.text_eq
  · have whole : (c :: word).all isReferenceChar = true := by simp [first, plain]
    rw [text]
    exact sealed_dot.append (sealed_of_words isApart_bar whole)
  · rw [text]
    exact isSealed.bracketed

end Step

theorem head?_steps (steps : List Step) {tail : List Char} (apart : StartsApart tail) :
    ∀ c ∈ (steps.flatMap Step.text ++ tail).head?, isReferenceChar c = false := by
  cases steps with
  | nil => exact fun c first => (apart c first).1
  | cons step rest =>
    rw [List.flatMap_cons, List.append_assoc]
    cases step <;> (rintro c ⟨rfl⟩; decide)

/-- The steps of a path are taken as a whole. -/
theorem takeSteps_steps (steps : List Step) {tail : List Char} (apart : StartsApart tail) :
    takeSteps (steps.flatMap Step.text ++ tail) = (steps.flatMap Step.text, tail) := by
  induction steps with
  | nil => exact takeSteps_of_startsApart apart
  | cons step rest ih =>
    rw [List.flatMap_cons, List.append_assoc]
    obtain ⟨c, word, text, first, plain⟩ | ⟨inner, text, -, closes⟩ := step.text_eq
    · obtain ⟨taken, dropped⟩ := takeWhile_word plain (head?_steps rest apart)
      rw [text, List.cons_append, List.cons_append, takeSteps_property _ first, taken, dropped, ih]
      rfl
    · rw [text, List.cons_append, List.append_assoc, List.singleton_append,
        takeSteps_brackets (closes _), ih]
      rfl

namespace Variable

variable (named : Variable)

theorem not_mem_keywords : String.ofList named.text ∉ keywords := by
  cases given : named.steps with
  | nil => simpa [text, given] using named.free given
  | cons step rest =>
    have marked : ∃ d ∈ named.text, d = '.' ∨ d = '[' := by
      have member : ∀ c ∈ step.text, c ∈ named.text := fun c inside => by
        simp [text, given, inside]
      cases step with
      | property word => exact ⟨'.', member _ List.mem_cons_self, .inl rfl⟩
      | position digits => exact ⟨'[', member _ List.mem_cons_self, .inr rfl⟩
      | key quoted => exact ⟨'[', member _ List.mem_cons_self, .inr rfl⟩
    have plain : ∀ word ∈ keywords, '.' ∉ word.toList ∧ '[' ∉ word.toList := by decide
    exact fun member => ofList_ne_of_marked marked (plain _ member) rfl

theorem isSealed : Sealed '|' 0 named.text := by
  have word := all_isReferenceChar_cons named.starts named.plain
  exact (sealed_of_words isApart_bar word).append (.flatMap fun step _ => step.isSealed)

/-- A variable is found as its path. -/
theorem references_text {before : Option Char} {tail : List Char}
    (fresh : before.any joinsWord = false) (follows : Follows tail) :
    references before (named.text ++ tail) = named.path :: references none tail := by
  rw [text, references_of_takeSteps named.starts named.plain fresh follows.apart
    (head?_steps _ follows.apart) (takeSteps_steps _ follows.apart)]
  have single : listed named.text tail = [named.path] := by
    refine if_neg ?_
    simp [follows.unlabelled, named.not_mem_keywords]
  rw [text] at single
  rw [single, List.singleton_append]

end Variable

/-! ## Numbers -/

/-- The digits, signs and dots of numbers. -/
def isNumeral (c : Char) : Bool :=
  c.isDigit || ['-', '+', '.'].contains c

section Numerals

variable {text : List Char}

theorem isNumeral_of_mem_digits (digits : Digits) {c : Char} (member : c ∈ digits.text) :
    isNumeral c = true := by
  simp [isNumeral, List.all_eq_true.mp digits.plain c member]

theorem isNumeral_of_mem_sign (signed : text ∈ signs) {c : Char} (member : c ∈ text) :
    isNumeral c = true := by
  have plain : ∀ sign ∈ signs, sign.all isNumeral = true := by decide
  exact List.all_eq_true.mp (plain text signed) c member

theorem isNameStart_of_isNumeral {c : Char} (numeral : isNumeral c = true) :
    isNameStart c = false := by
  refine Bool.eq_false_iff.mpr fun name => ?_
  rcases Bool.or_eq_true_iff.mp numeral with digit | sign
  · rw [isDigit_of_isNameStart name] at digit
    contradiction
  · have others : ['-', '+', '.'].any isNameStart = false := rfl
    exact List.any_eq_false.mp others c (List.contains_iff_mem.mp sign) name

theorem sealed_of_numerals (plain : ∀ c ∈ text, isNumeral c = true) : Sealed '|' 0 text := by
  refine .of_all fun c member => ⟨admitsCut_of_not_mem (not_mem_scanMarks (plain c member) rfl), ?_⟩
  rintro rfl
  exact absurd (plain _ member) (by decide)

theorem references_numerals {before : Option Char} {tail : List Char}
    (plain : ∀ c ∈ text, isNumeral c = true) :
    references before (text ++ tail) = references (text.getLast?.or before) tail :=
  references_skip_all fun c member =>
    ⟨isQuote_of_not_mem (not_mem_scanMarks (plain c member) rfl),
      isNameStart_of_isNumeral (plain c member)⟩

end Numerals

/-- Behind digits no word starts. -/
theorem Digits.joins (digits : Digits) : digits.text.getLast?.any joinsWord = true := by
  have last := List.getLast?_eq_some_getLast digits.full
  have digit := List.all_eq_true.mp digits.plain _ (List.mem_of_getLast? last)
  have small := toNat_of_isDigit digit
  rw [last]
  simp [joinsWord, isAlphanumeric, Char.isAlphanum, digit,
    Nat.lt_of_le_of_lt small (by decide : '9'.toNat < 0x80)]

namespace Exponent

variable (exponent : Exponent)

theorem isNumeral_of_mem {c : Char} (member : c ∈ exponent.sign ++ exponent.digits.text) :
    isNumeral c = true :=
  (List.mem_append.mp member).elim (isNumeral_of_mem_sign exponent.signed)
    (isNumeral_of_mem_digits exponent.digits)

theorem mark_plain : isReferenceChar exponent.mark = true := by
  rcases exponent.isMark with same | same <;> rw [same] <;> decide

end Exponent

namespace Number

variable (number : Number)

/-- A number up to its exponent. -/
def mantissa : List Char :=
  number.sign ++ number.whole.text ++ number.fraction.elim [] fun digits => '.' :: digits.text

theorem isNumeral_of_mem_mantissa : ∀ c ∈ number.mantissa, isNumeral c = true := by
  intro c member
  obtain (sign | whole) | fraction :
      (c ∈ number.sign ∨ c ∈ number.whole.text) ∨
        c ∈ number.fraction.elim [] fun digits => '.' :: digits.text := by
    simpa only [mantissa, List.mem_append] using member
  · exact isNumeral_of_mem_sign number.signed sign
  · exact isNumeral_of_mem_digits _ whole
  · cases given : number.fraction with
    | none => simp [given] at fraction
    | some digits =>
      rw [given] at fraction
      rcases List.mem_cons.mp fraction with rfl | inside
      · decide
      · exact isNumeral_of_mem_digits _ inside

theorem mantissa_joins : number.mantissa.getLast?.any joinsWord = true := by
  cases given : number.fraction with
  | none =>
    have joins := number.whole.joins
    rw [mantissa, given, Option.elim_none, List.append_nil,
      List.getLast?_append_of_ne_nil _ number.whole.full, joins]
  | some digits =>
    rw [mantissa, given, Option.elim_some, List.getLast?_append_of_ne_nil _ (List.cons_ne_nil _ _),
      ← List.singleton_append, List.getLast?_append_of_ne_nil _ digits.full, digits.joins]

theorem isSealed : Sealed '|' 0 number.text := by
  refine (sealed_of_numerals number.isNumeral_of_mem_mantissa).append ?_
  cases number.exponent with
  | none => exact .nil
  | some exponent =>
    have mark : Sealed '|' 0 [exponent.mark] :=
      sealed_of_words isApart_bar (by simp [exponent.mark_plain])
    exact mark.append (sealed_of_numerals fun c => exponent.isNumeral_of_mem)

/-- Numbers are passed. The mark of an exponent is a letter, but it goes on the digits before it. -/
theorem references_text {before : Option Char} {tail : List Char} (apart : StartsApart tail) :
    references before (number.text ++ tail) = references none tail := by
  have joins : (number.mantissa.getLast?.or before).any joinsWord = true := by
    have given := number.mantissa_joins
    cases last : number.mantissa.getLast? with
    | none => simp [last] at given
    | some d => simpa [last] using given
  cases given : number.exponent with
  | none =>
    have whole : number.text = number.mantissa := by simp [text, mantissa, given]
    rw [whole, references_numerals number.isNumeral_of_mem_mantissa,
      references_of_startsApart apart]
  | some exponent =>
    have whole : number.text ++ tail = number.mantissa ++
        exponent.mark :: (exponent.sign ++ exponent.digits.text ++ tail) := by
      simp [text, mantissa, given]
    rw [whole, references_numerals number.isNumeral_of_mem_mantissa,
      references_skip (by simp [isQuote_of_isReferenceChar exponent.mark_plain]) (by simp [joins]),
      references_numerals fun c => exponent.isNumeral_of_mem, references_of_startsApart apart]

end Number

/-! ## Operands -/

namespace Operand

variable (operand : Operand)

theorem mem_keywords_of_literal {word : String} (isLiteral : word ∈ literalWords) :
    word ∈ keywords := by
  have reserved : ∀ word ∈ literalWords, word ∈ keywords := by decide
  exact reserved word isLiteral

theorem isSealed : Sealed '|' 0 operand.written := by
  cases operand with
  | path named => exact named.isSealed
  | text quoted => exact .quoted quoted.isMark quoted.absent
  | number number => exact number.isSealed
  | word word isLiteral =>
    have plain : ∀ word ∈ literalWords, word.toList.all isReferenceChar = true := by decide
    exact sealed_of_words isApart_bar (plain word isLiteral)

/-- Of an operand only its variable is found. -/
theorem references_written {before : Option Char} {tail : List Char}
    (fresh : before.any joinsWord = false) (follows : Follows tail) :
    references before (operand.written ++ tail) =
      operand.mentions.map Variable.path ++ references none tail := by
  cases operand with
  | path named => exact named.references_text fresh follows
  | text quoted => exact references_quoted quoted.isMark quoted.absent
  | number number => exact number.references_text follows.apart
  | word word isLiteral =>
    exact references_keyword (mem_keywords_of_literal isLiteral) fresh follows.apart

end Operand

/-! ## Operators -/

section Operators

variable {operator : String} (isOperator : operator ∈ operators)
include isOperator

theorem sealed_of_operator : Sealed '|' 0 operator.toList := by
  have plain : ∀ operator ∈ operators,
      operator.toList.all (fun c => Scan.start.admitsCut c && c != '|') = true := by decide
  exact .of_checked (plain operator isOperator)

theorem isLabelled_operator (tail : List Char) : isLabelled (operator.toList ++ tail) = false := by
  have dark : ∀ operator ∈ operators,
      operator.toList.head?.any (fun c => !isBlank c && c ≠ ':') = true := by decide
  have first := dark operator isOperator
  cases given : operator.toList with
  | nil => simp [given] at first
  | cons c rest =>
    rw [given] at first
    obtain ⟨bright, other⟩ := Bool.and_eq_true_iff.mp first
    exact isLabelled_cons (by simpa using bright) (by simpa using other) (rest ++ tail)

/-- Operators are passed: they are reserved words, or have no letters. -/
theorem references_operator {before : Option Char} {tail : List Char}
    (fresh : before.any joinsWord = false) (apart : StartsApart tail) :
    references before (operator.toList ++ tail) = references none tail := by
  have kinds : ∀ operator ∈ operators, operator ∈ keywords ∨
      operator.toList.all (fun c => !isQuote c && !isNameStart c) = true := by decide
  rcases kinds operator isOperator with reserved | plain
  · exact references_keyword reserved fresh apart
  · have passes : ∀ c ∈ operator.toList, isQuote c = false ∧ isNameStart c = false := by
      simpa using plain
    rw [references_skip_all passes, references_of_startsApart apart]

end Operators

namespace Link

variable (link : Link)

theorem isSealed : Sealed '|' 0 link.text :=
  ((link.before.isSealed.append (sealed_of_operator link.isOperator)).append
    link.after.isSealed).append link.operand.isSealed

theorem references_text {tail : List Char} (follows : Follows tail) :
    references none (link.text ++ tail) =
      link.operand.mentions.map Variable.path ++ references none tail := by
  have apart : StartsApart (link.after.text ++ (link.operand.written ++ tail)) :=
    link.after.isGap.startsApart fun empty => absurd empty link.after.full
  rw [text, List.append_assoc, List.append_assoc, List.append_assoc,
    references_gap link.before.isGap rfl, references_operator link.isOperator rfl apart,
    references_gap link.after.isGap rfl, link.operand.references_written rfl follows]

theorem follows (tail : List Char) : Follows (link.text ++ tail) := by
  rw [text, List.append_assoc, List.append_assoc, List.append_assoc]
  exact link.before.isGap.follows (fun empty => absurd empty link.before.full)
    (isLabelled_operator link.isOperator _)

end Link

section Links

variable {tail : List Char} (follows : Follows tail)
include follows

theorem follows_links (links : List Link) : Follows (links.flatMap Link.text ++ tail) := by
  cases links with
  | nil => exact follows
  | cons link rest =>
    rw [List.flatMap_cons, List.append_assoc]
    exact link.follows _

/-- The search goes through a chain link by link. -/
theorem references_links (links : List Link) :
    references none (links.flatMap Link.text ++ tail) =
      (links.flatMap fun link => link.operand.mentions).map Variable.path ++
        references none tail := by
  induction links with
  | nil => rfl
  | cons link rest ih =>
    rw [List.flatMap_cons, List.append_assoc, link.references_text (follows_links follows rest), ih,
      List.flatMap_cons, List.map_append, List.append_assoc]

end Links

/-! ## Arguments -/

namespace Label

variable (label : Label)

theorem isSealed : Sealed '|' 0 label.text := by
  have word := all_isReferenceChar_cons label.starts label.plain
  exact ((sealed_of_words isApart_bar word).append label.before.isSealed).append
    (sealed_colon.append label.after.isSealed)

/-- Labels are passed. -/
theorem references_text (tail : List Char) :
    references none (label.text ++ tail) = references none tail := by
  have whole : label.text ++ tail = label.start :: label.word ++
      (label.before.text ++ ':' :: (label.after.text ++ tail)) := by simp [text]
  have apart : StartsApart (label.before.text ++ ':' :: (label.after.text ++ tail)) :=
    label.before.isGap.startsApart fun _ =>
      startsApart_cons (by decide) (by decide) (by decide) _
  have labelled : isLabelled (label.before.text ++ ':' :: (label.after.text ++ tail)) = true := by
    rw [isLabelled, label.before.isGap.trimStart_append, trimStart_eq_self (by simp; decide)]
    rfl
  rw [whole, references_word label.starts label.plain rfl apart, listed,
    if_pos (by rw [labelled, Bool.true_or]), List.nil_append, references_gap label.before.isGap rfl,
    references_skip (by decide) (by decide), references_gap label.after.isGap (by decide)]

end Label

namespace Argument

variable (argument : Argument)

theorem isSealed : Sealed '|' 0 argument.text := by
  have label : Sealed '|' 0 (argument.label.elim [] Label.text) := by
    cases argument.label with
    | none => exact .nil
    | some label => exact label.isSealed
  exact ((argument.before.isSealed.append label).append
    argument.operand.isSealed).append argument.after.isSealed

theorem references_text {tail : List Char} (follows : Follows tail) :
    references none (argument.text ++ tail) =
      argument.operand.mentions.map Variable.path ++ references none tail := by
  have further : Follows (argument.after.text ++ tail) :=
    argument.after.isGap.follows (fun _ => follows.apart) follows.unlabelled
  have value : references none (argument.operand.written ++ (argument.after.text ++ tail)) =
      argument.operand.mentions.map Variable.path ++ references none tail := by
    rw [argument.operand.references_written rfl further, references_gap argument.after.isGap rfl]
  rw [text, List.append_assoc, List.append_assoc, List.append_assoc,
    references_gap argument.before.isGap rfl]
  cases argument.label with
  | none => exact value
  | some label =>
    rw [Option.elim_some, label.references_text, value]

end Argument

/-- The arguments behind the first one, each with its comma. -/
theorem references_arguments (arguments : List Argument) :
    references none (arguments.flatMap fun argument => ',' :: argument.text) =
        (arguments.flatMap fun argument => argument.operand.mentions).map Variable.path ∧
      Follows (arguments.flatMap fun argument => ',' :: argument.text) := by
  induction arguments with
  | nil => exact ⟨by simp [references], follows_nil⟩
  | cons argument rest ih =>
    obtain ⟨found, follows⟩ := ih
    rw [List.flatMap_cons, List.cons_append]
    refine ⟨?_, follows_comma _⟩
    rw [references_skip (by decide) (by decide), references_of_fresh (by decide),
      argument.references_text follows, found, List.flatMap_cons, List.map_append]

/-! ## Filters -/

namespace Filter

variable (filter : Filter)

theorem colon_not_mem : ':' ∉ filter.name :=
  ne_of_isName_trim filter.named (by decide) (by decide)

theorem isSealed : Sealed '|' 0 filter.text := by
  have name : Sealed '|' 0 filter.name :=
    sealed_of_isName_trim filter.named (by decide) (by decide) 0
  cases given : filter.arguments with
  | nil => simpa [text, given] using name
  | cons first rest =>
    have others : Sealed '|' 0 (rest.flatMap fun argument => ',' :: argument.text) :=
      .flatMap fun argument _ => sealed_comma.append argument.isSealed
    simpa [text, given] using name.append (sealed_colon.append (first.isSealed.append others))

/-- In the arguments of a filter their variables are found, and nothing of its name. -/
theorem references_argumentText? :
    (argumentText? filter.text).elim [] (references none) =
      (filter.arguments.flatMap fun argument => argument.operand.mentions).map Variable.path := by
  cases given : filter.arguments with
  | nil =>
    have whole : filter.text = filter.name := by simp [text, given]
    rw [whole, argumentText?, breakAt_eq_none_iff.mpr filter.colon_not_mem]
    rfl
  | cons first rest =>
    have whole : filter.text = filter.name ++
        ':' :: (first.text ++ rest.flatMap fun argument => ',' :: argument.text) := by
      simp [text, given]
    obtain ⟨found, follows⟩ := references_arguments rest
    rw [whole, argumentText?_cons filter.colon_not_mem, Option.elim_some,
      first.references_text follows, found, List.flatMap_cons, List.map_append]

end Filter

/-- A chain of filters is cut into them. -/
theorem splitTopLevel_filters {base : List Char} (isSealed : Sealed '|' 0 base)
    (filters : List Filter) :
    splitTopLevel '|' (base ++ filters.flatMap fun filter => '|' :: filter.text) =
      base :: filters.map Filter.text := by
  have whole {base : List Char} (isSealed : Sealed '|' 0 base) : splitTopLevel '|' base = [base] :=
    isSealed.whole
  induction filters generalizing base with
  | nil => simpa using whole isSealed
  | cons filter rest ih =>
    rw [List.flatMap_cons, List.cons_append,
      splitTopLevel_append_separator isApart_bar.plain isSealed.closed, whole isSealed,
      ih filter.isSealed]
    rfl

theorem references_filters (filters : List Filter) :
    ((filters.map Filter.text).filterMap argumentText?).flatMap (references none) =
      (filters.flatMap fun filter => filter.arguments.flatMap fun argument =>
        argument.operand.mentions).map Variable.path := by
  induction filters with
  | nil => rfl
  | cons filter rest ih =>
    rw [List.flatMap_cons, List.map_append, ← filter.references_argumentText?, ← ih, List.map_cons]
    cases given : argumentText? filter.text with
    | none => rw [List.filterMap_cons_none given, Option.elim_none, List.nil_append]
    | some arguments => rw [List.filterMap_cons_some given, List.flatMap_cons, Option.elim_some]

/-! ## Expressions -/

namespace Expression

variable (expression : Expression)

theorem isSealed_condition : Sealed '|' 0 expression.condition :=
  ((expression.before.isSealed.append expression.first.isSealed).append
    (.flatMap fun link _ => link.isSealed)).append expression.after.isSealed

theorem references_condition :
    references none expression.condition =
      (expression.first.mentions ++
        expression.links.flatMap fun link => link.operand.mentions).map Variable.path := by
  have follows : Follows expression.after.text := by
    simpa using expression.after.isGap.follows (fun _ => startsApart_nil) follows_nil.unlabelled
  have nothing : references none expression.after.text = [] := by
    simpa [references] using @references_gap none [] _ expression.after.isGap rfl
  rw [condition, List.append_assoc, List.append_assoc, references_gap expression.before.isGap rfl,
    expression.first.references_written rfl (follows_links follows _),
    references_links follows, nothing, List.append_nil, List.map_append]

/-- The paths that a written expression refers to are those of its variables, in the order of its text:
no name of a filter, no label, no reserved word, no number and nothing of a quoted text is among them. -/
theorem identifiers_written :
    identifiers (String.ofList expression.text) = expression.mentions.map Variable.path := by
  rw [identifiers, String.toList_ofList, text,
    splitTopLevel_filters expression.isSealed_condition]
  simp only
  rw [expression.references_condition, references_filters, ← List.map_append, mentions]

end Expression

end Written

end MessageTemplate.Template
