import MessageTemplate.Proofs.Json.Outputs
import MessageTemplate.Proofs.Template.Filters

/-! # References in JSON texts

A string of a JSON text holds a reference as it is, but for double quotes around its keys, which are
escaped there. What is escaped is read as a reference again. -/

namespace MessageTemplate

open Text Template

namespace Json

/-- A character that a string holds as it is. -/
def isVerbatim (c : Char) : Bool :=
  c ≠ '"' && c ≠ '\\' && 0x20 ≤ c.toNat

theorem escape_eq_self {text : List Char} (plain : text.all isVerbatim = true) :
    escape text = text := by
  induction text with
  | nil => rfl
  | cons c rest ih =>
    obtain ⟨first, others⟩ := Bool.and_eq_true_iff.mp (List.all_cons ▸ plain)
    simp only [isVerbatim, Bool.and_eq_true, decide_eq_true_eq] at first
    obtain ⟨⟨quote, backslash⟩, printed⟩ := first
    have same : writeChar c [] = [c] := by
      rw [writeChar, if_neg quote, if_neg backslash, if_pos printed]
    rw [escape_cons, same, ih others]
    rfl

theorem isVerbatim_of_isKeyChar {c : Char} (plain : isKeyChar c = true) : isVerbatim c = true := by
  have controls : ∀ n < 0x20, isKeyChar (Char.ofNat n) = false := by decide +kernel
  have double : c ≠ '"' := by rintro rfl; contradiction
  have backslash : c ≠ '\\' := by rintro rfl; contradiction
  have printed : 0x20 ≤ c.toNat := by
    by_contra low
    have absent := controls c.toNat (by omega)
    rw [Char.ofNat_toNat, plain] at absent
    contradiction
  simp [isVerbatim, double, backslash, printed]

theorem all_isVerbatim {text : List Char} (plain : text.all isReferenceChar = true) :
    text.all isVerbatim = true := by
  rw [List.all_eq_true] at plain ⊢
  exact fun c member => isVerbatim_of_isKeyChar (by simp [isKeyChar, plain c member])

end Json

namespace Template

open Json

theorem escape_mark {quote : Char} (isMark : isQuote quote = true) :
    Json.escape [quote] = ReferenceStep.mark (quote = '"') quote := by
  rcases isQuote_cases isMark with rfl | rfl <;> decide

/-- A step is written in a JSON text as its escaped form. -/
theorem ReferenceStep.escape_text {step : ReferenceStep} (written : step.isWritten = true)
    (bare : step.isBare = true) : Json.escape step.text = step.escape.text := by
  cases step with
  | property word =>
    have plain : word.all isReferenceChar = true := (Bool.and_eq_true_iff.mp written).2
    refine escape_eq_self ?_
    rw [text, List.all_cons, all_isVerbatim plain]
    decide
  | position digits =>
    have plain : digits.all isReferenceChar = true := by
      rw [List.all_eq_true]
      exact fun c member => isReferenceChar_of_isDigit
        (List.all_eq_true.mp (Bool.and_eq_true_iff.mp written).2 c member)
    refine escape_eq_self ?_
    rw [text, List.all_cons, List.all_append, all_isVerbatim plain]
    decide
  | quoted escaped quote key =>
    obtain ⟨isMark, plain⟩ := Bool.and_eq_true_iff.mp written
    obtain rfl : escaped = false := by simpa [isBare] using bare
    have inner : Json.escape key = key := by
      refine escape_eq_self ?_
      rw [List.all_eq_true] at plain ⊢
      exact fun c member => isVerbatim_of_isKeyChar (plain c member)
    have bracket : Json.escape ['['] = ['['] ∧ Json.escape [']'] = [']'] := by decide
    have whole : (quoted false quote key).text = ['['] ++ ([quote] ++ key ++ [quote] ++ [']']) := rfl
    rw [whole]
    simp only [escape_append, inner, escape_mark isMark, bracket]
    rfl

theorem escape_textOfSteps {steps : List ReferenceStep}
    (written : steps.all ReferenceStep.isWritten = true)
    (bare : steps.all ReferenceStep.isBare = true) :
    Json.escape (Reference.textOfSteps steps) =
      Reference.textOfSteps (steps.map ReferenceStep.escape) := by
  induction steps with
  | nil => rfl
  | cons step rest ih =>
    rw [List.all_cons, Bool.and_eq_true] at written bare
    simp only [Reference.textOfSteps, List.flatMap_cons, List.map_cons] at ih ⊢
    rw [escape_append, step.escape_text written.1 bare.1, ih written.2 bare.2]

/-- A reference is written in a JSON text as its escaped form. -/
theorem Reference.escape_text {reference : Reference} (bare : reference.isBare = true) :
    Json.escape reference.text = reference.escape.text := by
  have name : Json.escape (reference.start :: reference.word) = reference.start :: reference.word := by
    refine escape_eq_self (all_isVerbatim ?_)
    rw [List.all_cons, isReferenceChar_of_isNameStart reference.starts, reference.plain]
    rfl
  have whole : reference.text =
      (reference.start :: reference.word) ++ textOfSteps reference.steps := rfl
  rw [whole, escape_append, name, escape_textOfSteps reference.written bare]
  rfl

/-- Without double quotes nothing in a reference is escaped. -/
theorem Reference.escape_eq_self {reference : Reference}
    (single : '"' ∉ reference.text) : reference.escape = reference := by
  have same : ∀ step ∈ reference.steps, step.escape = step := by
    intro step member
    cases step with
    | property => rfl
    | position => rfl
    | quoted escaped quote key =>
      have other : quote ≠ '"' := by
        rintro rfl
        refine single (List.mem_cons_of_mem _ (List.mem_append_right _ ?_))
        refine List.mem_flatMap.mpr ⟨_, member, ?_⟩
        cases escaped <;> simp [ReferenceStep.text, ReferenceStep.mark]
      simp [ReferenceStep.escape, other]
  have steps := (List.map_congr_left same).trans (List.map_id _)
  obtain ⟨start, word, given, starts, plain, continued, written⟩ := reference
  simp only [escape, steps]

theorem trim_spaces {text : List Char} (tight : Tight text) :
    trim (' ' :: (text ++ [' '])) = text :=
  (isGap_space.trim_around isGap_space text).trans (trim_eq_self tight)

/-- The markup of an output with a tight inside between spaces is that inside. -/
theorem markupOf_spaces {text : List Char} (tight : Tight text) :
    markupOf (' ' :: (text ++ [' '])) = text := by
  have spaced (text : List Char) : dropLeading '-' (' ' :: text) = ' ' :: text := by
    rw [dropLeading, if_neg (by decide)]
  have stays : dropTrailing '-' (' ' :: (text ++ [' '])) = ' ' :: (text ++ [' ']) := by
    have turned : (' ' :: (text ++ [' '])).reverse = ' ' :: (text.reverse ++ [' ']) := by simp
    rw [dropTrailing, turned, spaced, ← turned, List.reverse_reverse]
  rw [markupOf, spaced, stays, trim_spaces tight]

/-- The inside of an output of a reference is the reference, as it is written. -/
theorem markupOf_escape {reference : Reference} (bare : reference.isBare = true) :
    markupOf (Json.escape (' ' :: (reference.text ++ [' ']))) = reference.escape.text := by
  have space : Json.escape [' '] = [' '] := by decide
  have inner : Json.escape (' ' :: (reference.text ++ [' '])) =
      ' ' :: (reference.escape.text ++ [' ']) := by
    rw [← List.singleton_append, escape_append, escape_append, space,
      Reference.escape_text bare]
    rfl
  rw [inner, markupOf_spaces reference.escape.tight]

end Template

end MessageTemplate
