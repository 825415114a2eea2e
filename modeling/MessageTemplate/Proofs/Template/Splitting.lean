import MessageTemplate.Proofs.Template.TopLevel

/-! # The parts of a split text

A cut is made only where no quote and no bracket is open, so the scan goes on behind it as at the
start of a text. Each part is therefore scanned on its own as it was in the whole, and cannot be split
again (`exists_parts_splitFrom`). -/

namespace MessageTemplate.Template

variable {separator : Char}

/-! ## Joining the parts -/

theorem intercalate_modifyHead_cons {parts : List (List Char)} (full : parts ≠ []) (c : Char) :
    [separator].intercalate (parts.modifyHead (c :: ·)) = c :: [separator].intercalate parts := by
  cases parts with
  | nil => contradiction
  | cons first rest => cases rest <;> simp [List.intercalate]

theorem intercalate_nil_cons {parts : List (List Char)} (full : parts ≠ []) :
    [separator].intercalate ([] :: parts) = separator :: [separator].intercalate parts := by
  cases parts with
  | nil => contradiction
  | cons => simp [List.intercalate]

/-- The parts of a text, with the separator between them, are the text. -/
theorem intercalate_splitFrom (state : Scan) (text : List Char) :
    [separator].intercalate (splitFrom separator state text) = text := by
  induction text generalizing state with
  | nil => simp [splitFrom, List.intercalate]
  | cons c rest ih =>
    have full := splitFrom_ne_nil separator
    rw [splitFrom]
    split
    · next cut =>
      obtain rfl : c = separator := by simpa using (Bool.and_eq_true_iff.mp cut).2
      rw [intercalate_nil_cons (full state rest), ih]
    · rw [intercalate_modifyHead_cons (full _ rest), ih]

/-! ## Splitting a part again -/

theorem Scan.eq_start_of_admitsCut {state : Scan} {c : Char} (admits : state.admitsCut c = true) :
    state = .start := by
  obtain ⟨quote, nesting⟩ := state
  simp only [admitsCut, Bool.and_eq_true, Option.isNone_iff_eq_none, decide_eq_true_eq] at admits
  obtain ⟨⟨⟨⟨rfl, rfl⟩, -⟩, -⟩, -⟩ := admits
  rfl

/-- The first part of a text has no cut when it is scanned from the same state, and the others have none
when they are scanned from the start. -/
theorem exists_parts_splitFrom (separator : Char) (state : Scan) (text : List Char) :
    ∃ first others, splitFrom separator state text = first :: others ∧
      splitFrom separator state first = [first] ∧
      ∀ part ∈ others, splitTopLevel separator part = [part] := by
  induction text generalizing state with
  | nil => exact ⟨[], [], rfl, rfl, fun _ none => nomatch none⟩
  | cons c rest ih =>
    rw [splitFrom]
    split
    · next cut =>
      -- What follows a cut is scanned from the start, as it is when it stands alone.
      obtain rfl := Scan.eq_start_of_admitsCut (Bool.and_eq_true_iff.mp cut).1
      obtain ⟨first, others, parts, alone, each⟩ := ih .start
      exact ⟨[], first :: others, by rw [parts], rfl, List.forall_mem_cons.mpr ⟨alone, each⟩⟩
    · next uncut =>
      obtain ⟨first, others, parts, alone, each⟩ := ih (state.next c)
      refine ⟨c :: first, others, by rw [parts]; rfl, ?_, each⟩
      rw [splitFrom, if_neg uncut, alone]
      rfl

/-! ## Separators of one character -/

/-- A separator text of one character cuts where the character does. -/
theorem splitTextFrom_singleton (state : Scan) (text : List Char) :
    splitTextFrom [separator] state 0 text = splitFrom separator state text := by
  induction text generalizing state with
  | nil => rfl
  | cons c rest ih =>
    have starts : [separator].isPrefixOf (c :: rest) = decide (c = separator) := by
      simp [List.isPrefixOf, eq_comm, Bool.beq_eq_decide_eq]
    rw [splitTextFrom, splitFrom, starts]
    simp [ih]

/-- Splitting a text loses nothing: its parts, joined with the separator, are the text. No part can be
split again, and the separator may as well be given as a text. This holds of any separator, also of one
that is a quote or a bracket, and whatever is left open in the text. -/
theorem splitTopLevel_parts (separator : Char) (text : List Char) :
    [separator].intercalate (splitTopLevel separator text) = text ∧
      (∀ part ∈ splitTopLevel separator text, splitTopLevel separator part = [part]) ∧
      splitTopLevelText [separator] text = splitTopLevel separator text := by
  refine ⟨intercalate_splitFrom .start text, ?_, splitTextFrom_singleton .start text⟩
  obtain ⟨first, others, parts, alone, each⟩ := exists_parts_splitFrom separator .start text
  rw [splitTopLevel, parts]
  exact List.forall_mem_cons.mpr ⟨alone, each⟩

end MessageTemplate.Template
