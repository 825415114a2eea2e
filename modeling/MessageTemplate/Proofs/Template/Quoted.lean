import MessageTemplate.Proofs.Template.Base

/-! # Quoted texts

Between quotes nothing is cut and no bracket is heeded, so a quoted text stays whole whatever it holds but
its quote. Behind a quote that is not closed, the rest of a text stays whole too, but it is read as no
text. -/

namespace MessageTemplate.Template

open Text

section Quotes

variable {separator quote : Char} {content : List Char} {nesting : Nat}

theorem Scan.next_of_quote {c : Char} (other : c ≠ quote) :
    Scan.next ⟨some quote, nesting⟩ c = ⟨some quote, nesting⟩ := by
  simp [Scan.next, nextQuote, other]

theorem foldl_scan_of_quote (absent : quote ∉ content) :
    content.foldl Scan.next ⟨some quote, nesting⟩ = ⟨some quote, nesting⟩ := by
  induction content with
  | nil => rfl
  | cons c rest ih =>
    obtain ⟨other, others⟩ := List.ne_and_not_mem_of_not_mem_cons absent
    rw [List.foldl_cons, Scan.next_of_quote other.symm, ih others]

theorem splitFrom_of_quote (absent : quote ∉ content) :
    splitFrom separator ⟨some quote, nesting⟩ content = [content] := by
  induction content with
  | nil => rfl
  | cons c rest ih =>
    obtain ⟨other, others⟩ := List.ne_and_not_mem_of_not_mem_cons absent
    rw [splitFrom, if_neg (by simp [Scan.admitsCut]), Scan.next_of_quote other.symm, ih others]
    rfl

variable (isMark : isQuote quote = true) (absent : quote ∉ content)
include isMark absent

/-- Behind a quote that is not closed nothing is cut. -/
theorem splitFrom_opened :
    splitFrom separator ⟨none, nesting⟩ (quote :: content) = [quote :: content] := by
  have opened : Scan.next ⟨none, nesting⟩ quote = ⟨some quote, nesting⟩ := by
    rcases isQuote_cases isMark with rfl | rfl <;> rfl
  rw [splitFrom, if_neg (by simp [Scan.admitsCut, isMark]), opened, splitFrom_of_quote absent]
  rfl

/-- A quoted text is never cut. -/
theorem Sealed.quoted : Sealed separator nesting (quote :: (content ++ [quote])) := by
  have opened : Scan.next ⟨none, nesting⟩ quote = ⟨some quote, nesting⟩ := by
    rcases isQuote_cases isMark with rfl | rfl <;> rfl
  have closed : Scan.next ⟨some quote, nesting⟩ quote = ⟨none, nesting⟩ := by
    simp [Scan.next, nextQuote]
  constructor
  · have parts : splitFrom separator ⟨some quote, nesting⟩ content = [] ++ [content] :=
      splitFrom_of_quote absent
    rw [splitFrom, if_neg (by simp [Scan.admitsCut, isMark]), opened, splitFrom_append parts,
      foldl_scan_of_quote absent, splitFrom, if_neg (by simp [Scan.admitsCut]), closed]
    rfl
  · rw [List.foldl_cons, opened, List.foldl_append, foldl_scan_of_quote absent, List.foldl_cons,
      closed]
    rfl

end Quotes

/-! ## Quoted arguments -/

section Arguments

variable {quote : Char} {content gap : List Char}

theorem literalArgument?_quoted (isMark : isQuote quote = true) (content : List Char) :
    literalArgument? (quote :: (content ++ [quote])) = some (.text (String.ofList content)) := by
  have inside : unquote? (quote :: (content ++ [quote])) = some content := by
    simp [unquote?, isMark]
  rw [literalArgument?, inside]

theorem tight_quoted (isMark : isQuote quote = true) (content : List Char) :
    Tight (quote :: (content ++ [quote])) := by
  have dark : isBlank quote = false := by
    rcases isQuote_cases isMark with rfl | rfl <;> decide
  constructor
  · rintro c ⟨rfl⟩
    exact dark
  · rw [← List.cons_append, List.getLast?_concat]
    rintro c ⟨rfl⟩
    exact dark

/-- A quoted argument is a text. -/
theorem readArgument_quoted (isGap : IsGap gap) (isMark : isQuote quote = true)
    (content : List Char) :
    readArgument (gap ++ quote :: (content ++ [quote])) = .text (String.ofList content) := by
  have trimmed : trim (gap ++ quote :: (content ++ [quote])) = quote :: (content ++ [quote]) := by
    rw [trim, isGap.trimStart_append, ← trim, trim_eq_self (tight_quoted isMark content)]
  rw [readArgument, trimmed, literalArgument?_quoted isMark]

theorem exists_unquote?_of_literalArgument? {text : List Char} {value : String}
    (read : literalArgument? text = some (.text value)) : ∃ inner, unquote? text = some inner := by
  unfold literalArgument? at read
  split at read
  · next inner found => exact ⟨inner, found⟩
  · split at read
    · exact nomatch read
    · split at read <;> exact nomatch read

theorem exists_unquote?_of_operand {text : List Char} {value : String}
    (read : operand text = .text value) : ∃ inner, unquote? (trim text) = some inner := by
  simp only [operand] at read
  cases literal : literalArgument? (trim text) with
  | none =>
    rw [literal] at read
    contradiction
  | some argument =>
    obtain rfl : argument = .text value := by rwa [literal] at read
    exact exists_unquote?_of_literalArgument? literal

/-- Only what stands between quotes is read as a text. -/
theorem exists_unquote?_of_readArgument {text : List Char} {value : String}
    (read : readArgument text = .text value) : ∃ inner, unquote? (trim text) = some inner := by
  unfold readArgument at read
  split at read
  · next literal found => exact exists_unquote?_of_literalArgument? (read ▸ found)
  · split at read
    · split at read
      · contradiction
      · exact exists_unquote?_of_operand read
    · exact exists_unquote?_of_operand read

end Arguments

end MessageTemplate.Template
