import MessageTemplate.Engine.Sentence
import Mathlib.Data.List.Basic

/-! # What sentences show and count

A sentence enumerates the first names, up to its limit, and then counts all others
(`sentence_shows`): no name is both shown and counted, and none is left out. A single name is shown
even where the limit is zero; apart from this the limit decides. -/

namespace MessageTemplate.Engine

/-- Behind other parts, the last one follows the word for it. -/
theorem enumeration_append_singleton {front : List String} (full : front ≠ []) (last : String) :
    enumeration (front ++ [last]) = ", ".intercalate front ++ " and " ++ last := by
  induction front with
  | nil => exact absurd rfl full
  | cons first rest ih =>
    cases rest with
    | nil => rw [String.intercalate_singleton]; rfl
    | cons next rest =>
      have further := ih (List.cons_ne_nil next rest)
      obtain ⟨second, others, shape⟩ := List.exists_cons_of_ne_nil
        (List.append_ne_nil_of_right_ne_nil rest (List.cons_ne_nil last []))
      rw [String.intercalate_cons_cons, List.cons_append, List.cons_append, shape, enumeration,
        ← shape, ← List.cons_append, further]
      · simp only [String.append_assoc]
      · exact List.cons_ne_nil second others

theorem enumerated_eq_enumeration (names : List String) : enumerated names = enumeration names := by
  rcases List.eq_nil_or_concat' names with rfl | ⟨front, last, rfl⟩
  · rfl
  · rw [enumerated, List.getLast?_concat, List.dropLast_concat, List.length_append,
      List.length_singleton]
    cases front with
    | nil => rfl
    | cons first rest =>
      rw [enumeration_append_singleton (List.cons_ne_nil first rest)]
      exact if_neg (by simp)

/-- The first names and the number of the others are the parts of an abridged sentence. -/
theorem abridged_eq_enumeration {names : List String} {limit : Nat} (fewer : limit < names.length)
    (more : Option String) :
    abridged names limit more =
      enumeration (names.take limit ++ countOfRest (names.drop limit) more) := by
  have others : (names.drop limit).isEmpty = false := by
    simpa using fewer
  rw [abridged, countOfRest, others, if_neg Bool.false_ne_true, List.length_drop]
  split
  · next none => rw [none]; rfl
  · next some =>
    rw [enumeration_append_singleton]
    rw [ne_eq, List.take_eq_nil_iff, not_or]
    exact ⟨some, List.ne_nil_of_length_pos (by omega)⟩

/-- What is behind the first names, and how many, for a list that is enumerated in full. -/
theorem enumeration_append_countOfRest_nil (names : List String) (more : Option String) :
    enumeration (names ++ countOfRest [] more) = enumerated names := by
  rw [enumerated_eq_enumeration, countOfRest, List.isEmpty_nil, if_pos rfl, List.append_nil]

/-- An enumeration ends with its last part. -/
theorem exists_enumeration_eq (front : List String) (last : String) :
    ∃ before, enumeration (front ++ [last]) = before ++ last := by
  cases front with
  | nil => exact ⟨"", (String.empty_append).symm⟩
  | cons first rest => exact ⟨_, enumeration_append_singleton (List.cons_ne_nil first rest) last⟩

/-- No more names are taken off than there are. -/
theorem sentence?_eq_some (names : List String) (limit : Option Nat) (more : Option String) :
    sentence? names limit more = some (sentence names limit more) := by
  match names with
  | [] => simp [sentence?, sentence, enumerated]
  | [only] => simp [sentence?, sentence, enumerated]
  | first :: next :: rest =>
    have several : 2 ≤ (first :: next :: rest).length := by simp
    simp only [sentence?, sentence]
    generalize first :: next :: rest = names at several ⊢
    generalize limit.getD names.length = limit
    by_cases fits : names.length ≤ limit
    · rw [if_pos fits, if_pos (by omega)]
    · have fewer : limit ≤ names.length := Nat.le_of_not_le fits
      rw [if_neg fits, if_neg (by omega), difference?, if_pos fewer, firstNames?, if_pos fewer,
        abridged]
      rfl

/-- A sentence enumerates the first names, as many as the limit lets it show, and behind them counts
all others if there are others. A single name is shown also where the limit is zero. Nothing is taken
off that is not there. -/
theorem sentence_shows (names : List String) (limit : Option Nat) (more : Option String) :
    ∃ shown rest, names = shown ++ rest ∧
      (names.length = 1 ∧ limit = some 0 ∧ rest = [] ∨
        ¬(names.length = 1 ∧ limit = some 0) ∧
          shown.length = min (limit.getD names.length) names.length) ∧
      sentence names limit more = enumeration (shown ++ countOfRest rest more) ∧
      (rest = [] ∨ ∃ before, sentence names limit more =
        before ++ (toString rest.length ++ " " ++
          more.getD (if rest.length = 1 then "other" else "others"))) ∧
      sentence? names limit more = some (sentence names limit more) := by
  by_cases fits : names.length ≤ max (limit.getD names.length) 1
  · refine ⟨names, [], (List.append_nil names).symm, ?_, ?_, .inl rfl,
      sentence?_eq_some names limit more⟩
    · by_cases single : names.length = 1 ∧ limit = some 0
      · exact .inl ⟨single.1, single.2, rfl⟩
      · refine .inr ⟨single, ?_⟩
        cases limit with
        | none => simp
        | some limit =>
          simp only [Option.some.injEq, not_and, Option.getD_some] at single fits ⊢
          omega
    · rw [sentence, if_pos fits, enumeration_append_countOfRest_nil]
  · have fewer : limit.getD names.length < names.length := by omega
    have abridges : sentence names limit more =
        enumeration (names.take (limit.getD names.length) ++
          countOfRest (names.drop (limit.getD names.length)) more) := by
      rw [sentence, if_neg fits, abridged_eq_enumeration fewer]
    refine ⟨_, _, (List.take_append_drop _ names).symm, .inr ⟨by omega, List.length_take⟩, abridges,
      .inr ?_, sentence?_eq_some names limit more⟩
    have others : (names.drop (limit.getD names.length)).isEmpty = false := by
      simpa using fewer
    rw [abridges, countOfRest, others, if_neg Bool.false_ne_true]
    exact exists_enumeration_eq _ _

/-- A single name is shown where no name may be shown. -/
theorem sentence_ignores_limit :
    sentence ["Ada"] (some 0) none = "Ada" ∧
      ¬∃ shown rest, ["Ada"] = shown ++ rest ∧ shown.length = min 0 ["Ada"].length ∧
        sentence ["Ada"] (some 0) none = enumeration (shown ++ countOfRest rest none) := by
  refine ⟨by decide, ?_⟩
  rintro ⟨shown, rest, whole, short, said⟩
  obtain rfl : shown = [] := List.length_eq_zero_iff.mp short
  obtain rfl : ["Ada"] = rest := whole
  exact absurd said (by decide)

end MessageTemplate.Engine
