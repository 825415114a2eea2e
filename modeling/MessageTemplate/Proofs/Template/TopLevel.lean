import Mathlib.Data.List.Basic
import MessageTemplate.Template.Reference

/-! # Cuts outside of quotes and brackets

A text with no quote and no bracket open at its end is cut on its own, whatever follows it. So a text
that holds no separator stays together with what is around it. -/

namespace MessageTemplate.Template

/-! ## Separator characters -/

theorem Scan.next_of_admitsCut {state : Scan} {c : Char} (admits : state.admitsCut c = true) :
    state.next c = state := by
  obtain ⟨quote, nesting⟩ := state
  simp only [Scan.admitsCut, Bool.and_eq_true, Option.isNone_iff_eq_none, decide_eq_true_eq,
    Bool.not_eq_true'] at admits
  obtain ⟨⟨⟨⟨rfl, rfl⟩, mark⟩, opening⟩, closing⟩ := admits
  simp [Scan.next, nextQuote, Scan.nextNesting, mark, opening, closing]

theorem splitFrom_ne_nil (separator : Char) (state : Scan) (text : List Char) :
    splitFrom separator state text ≠ [] := by
  cases text with
  | nil => simp [splitFrom]
  | cons c rest =>
    rw [splitFrom]
    split
    · simp
    · cases given : splitFrom separator (state.next c) rest with
      | nil => exact absurd given (splitFrom_ne_nil separator _ rest)
      | cons => simp

/-- A text that is followed by another one is cut as it is, and what follows goes on its last part. -/
theorem splitFrom_append {separator : Char} {state : Scan} {left right last : List Char}
    {front : List (List Char)} (cut : splitFrom separator state left = front ++ [last]) :
    splitFrom separator state (left ++ right) =
      front ++ (splitFrom separator (left.foldl Scan.next state) right).modifyHead (last ++ ·) := by
  induction left generalizing state front last with
  | nil =>
    obtain ⟨rfl, rfl⟩ : front = [] ∧ last = [] := by
      cases front with
      | nil => exact ⟨rfl, by simpa [splitFrom] using cut.symm⟩
      | cons => simp [splitFrom] at cut
    cases given : splitFrom separator state right <;> simp [given]
  | cons c rest ih =>
    rw [splitFrom] at cut
    rw [List.cons_append, splitFrom, List.foldl_cons]
    split at cut
    · next here =>
      rw [if_pos here]
      obtain ⟨admits, -⟩ := Bool.and_eq_true_iff.mp here
      rw [Scan.next_of_admitsCut admits]
      cases front with
      | nil => exact absurd (List.cons.inj cut).2 (splitFrom_ne_nil _ _ _)
      | cons first others =>
        obtain ⟨rfl, others⟩ := List.cons.inj cut
        rw [ih others]
        rfl
    · next other =>
      rw [if_neg other]
      obtain empty | ⟨init, final, parts⟩ :=
        List.eq_nil_or_concat' (splitFrom separator (state.next c) rest)
      · exact absurd empty (splitFrom_ne_nil _ _ _)
      rw [ih parts]
      rw [parts] at cut
      cases init with
      | nil =>
        obtain ⟨rfl, rfl⟩ : front = [] ∧ c :: final = last := by
          cases front with
          | nil => exact ⟨rfl, by simpa using cut⟩
          | cons => simp at cut
        simp only [List.nil_append]
        cases splitFrom separator (rest.foldl Scan.next (state.next c)) right <;> rfl
      | cons first others =>
        have same : ((c :: first) :: others) ++ [final] = front ++ [last] := cut
        obtain ⟨rfl, alike⟩ := List.append_inj' same rfl
        obtain rfl := List.singleton_inj.mp alike
        rfl

theorem splitFrom_separator {separator : Char} {state : Scan} {rest : List Char}
    (admits : state.admitsCut separator = true) :
    splitFrom separator state (separator :: rest) = [] :: splitFrom separator state rest := by
  rw [splitFrom, if_pos (by simp [admits])]

/-- Separators that brackets and quotes have nothing to do with. -/
def IsSeparator (separator : Char) : Prop :=
  Scan.start.admitsCut separator = true

/-- A text with nothing open at its end is cut apart from what stands behind a separator. -/
theorem splitTopLevel_append_separator {separator : Char} (plain : IsSeparator separator)
    {left : List Char} (closed : left.foldl Scan.next .start = .start) (right : List Char) :
    splitTopLevel separator (left ++ separator :: right) =
      splitTopLevel separator left ++ splitTopLevel separator right := by
  obtain empty | ⟨front, last, parts⟩ := List.eq_nil_or_concat' (splitFrom separator .start left)
  · exact absurd empty (splitFrom_ne_nil _ _ _)
  rw [splitTopLevel, splitFrom_append parts, closed, splitFrom_separator plain, splitTopLevel,
    splitTopLevel, parts]
  simp

namespace Sealed

variable {separator : Char} {nesting : Nat} {left right text : List Char}

/-- What follows a sealed text goes on it. -/
theorem split (isSealed : Sealed separator nesting left) (right : List Char) :
    splitFrom separator ⟨none, nesting⟩ (left ++ right) =
      (splitFrom separator ⟨none, nesting⟩ right).modifyHead (left ++ ·) := by
  have parts : splitFrom separator ⟨none, nesting⟩ left = [] ++ [left] := isSealed.whole
  rw [splitFrom_append parts, isSealed.closed]
  rfl

theorem splitTopLevel_append (isSealed : Sealed separator 0 left) (right : List Char) :
    splitTopLevel separator (left ++ right) =
      (splitTopLevel separator right).modifyHead (left ++ ·) :=
  isSealed.split right

theorem append (isSealed : Sealed separator nesting left) (more : Sealed separator nesting right) :
    Sealed separator nesting (left ++ right) where
  whole := by rw [isSealed.split, more.whole]; rfl
  closed := by rw [List.foldl_append, isSealed.closed, more.closed]

theorem nil : Sealed separator nesting [] :=
  ⟨rfl, rfl⟩

/-- A character that may stand anywhere and is no separator. -/
theorem singleton {c : Char} (plain : Scan.start.admitsCut c = true) (other : c ≠ separator) :
    Sealed separator nesting [c] where
  whole := by
    rw [splitFrom, if_neg (by simp [other])]
    rfl
  closed := by
    simp only [Scan.admitsCut, Scan.start, Bool.and_eq_true, Bool.not_eq_true'] at plain
    obtain ⟨⟨⟨-, mark⟩, opening⟩, closing⟩ := plain
    simp [Scan.next, nextQuote, Scan.nextNesting, mark, opening, closing]

theorem of_all {text : List Char}
    (plain : ∀ c ∈ text, Scan.start.admitsCut c = true ∧ c ≠ separator) :
    Sealed separator nesting text := by
  induction text with
  | nil => exact .nil
  | cons c rest ih =>
    obtain ⟨first, others⟩ := List.forall_mem_cons.mp plain
    exact (singleton first.1 first.2).append (ih others)

/-- A given text can be checked. -/
theorem of_checked {text : List Char}
    (plain : text.all (fun c => Scan.start.admitsCut c && c != separator) = true) :
    Sealed separator nesting text :=
  .of_all fun c member => by simpa using List.all_eq_true.mp plain c member

/-- What is written part by part is sealed if its parts are. -/
theorem flatMap {α : Type} {write : α → List Char} {parts : List α}
    (each : ∀ part ∈ parts, Sealed separator nesting (write part)) :
    Sealed separator nesting (parts.flatMap write) := by
  induction parts with
  | nil => exact .nil
  | cons part rest ih =>
    obtain ⟨first, others⟩ := List.forall_mem_cons.mp each
    exact first.append (ih others)

/-- A sealed text stays sealed between brackets. -/
theorem bracketed (isSealed : Sealed separator (nesting + 1) text) :
    Sealed separator nesting ('[' :: (text ++ [']'])) := by
  have opened : Scan.next ⟨none, nesting⟩ '[' = ⟨none, nesting + 1⟩ := rfl
  constructor
  · have parts : splitFrom separator ⟨none, nesting + 1⟩ text = [] ++ [text] := isSealed.whole
    rw [splitFrom, if_neg (by simp [Scan.admitsCut, Scan.isOpening]), opened,
      splitFrom_append parts, isSealed.closed, splitFrom, if_neg (by simp [Scan.admitsCut])]
    rfl
  · rw [List.foldl_cons, opened, List.foldl_append, isSealed.closed]
    rfl

end Sealed

end MessageTemplate.Template
