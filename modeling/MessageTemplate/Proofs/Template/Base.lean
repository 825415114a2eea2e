import MessageTemplate.Proofs.Template.Filters

/-! # The base of an expression

The base of an expression is what stands before its first bar, without the blanks around it. Blanks around
the whole expression do not show in it, and a text without bars that goes on the expression goes on the
base only if there is no bar at all. -/

namespace MessageTemplate.Text

open Template

/-! ## What is trimmed -/

/-- A text is what is left of it between blanks. -/
theorem exists_trim (text : List Char) :
    ∃ gap other, text = gap ++ trim text ++ other ∧ IsGap gap ∧ IsGap other := by
  obtain ⟨blanks, whole, blank⟩ := exists_trimEnd_append (trimStart text)
  refine ⟨text.takeWhile isBlank, blanks, ?_, List.all_eq_true.mp List.all_takeWhile,
    List.all_eq_true.mp blank⟩
  rw [List.append_assoc, trim, ← whole, trimStart, List.takeWhile_append_dropWhile]

/-- Trimming keeps all characters but blanks. -/
theorem count_trim {mark : Char} (dark : isBlank mark = false) (text : List Char) :
    (trim text).count mark = text.count mark := by
  obtain ⟨gap, other, whole, isGap, also⟩ := exists_trim text
  have none {gap : List Char} (isGap : IsGap gap) : gap.count mark = 0 :=
    List.count_eq_zero.mpr fun member => ne_of_isBlank (isGap mark member) mark dark rfl
  conv_rhs => rw [whole, List.count_append, List.count_append, none isGap, none also]
  simp

end MessageTemplate.Text

namespace MessageTemplate.Template

open Text

/-- What stands before the first bar. -/
def firstPart (text : List Char) : List Char :=
  (splitTopLevel '|' text).headD []

theorem splitFilters_fst (expression : String) :
    (splitFilters expression).1 = String.ofList (trim (firstPart expression.toList)) := by
  rw [splitFilters, firstPart]
  cases parts : splitTopLevel '|' expression.toList with
  | nil => exact absurd parts (splitFrom_ne_nil _ _ _)
  | cons base segments => rfl

theorem splitFrom_of_not_mem {separator : Char} {text : List Char} (absent : separator ∉ text)
    (state : Scan) : splitFrom separator state text = [text] := by
  induction text generalizing state with
  | nil => rfl
  | cons c rest ih =>
    have other : c ≠ separator := fun same => absent (same ▸ List.mem_cons_self)
    rw [splitFrom, if_neg (by simp [other]), ih fun member => absent (List.mem_cons_of_mem _ member)]
    rfl

/-- A text without bars goes on the last part. -/
theorem exists_splitTopLevel_append {right : List Char} (absent : '|' ∉ right)
    (text : List Char) : ∃ front last, splitTopLevel '|' text = front ++ [last] ∧
      splitTopLevel '|' (text ++ right) = front ++ [last ++ right] := by
  obtain empty | ⟨front, last, parts⟩ := List.eq_nil_or_concat' (splitTopLevel '|' text)
  · exact absurd empty (splitFrom_ne_nil _ _ _)
  refine ⟨front, last, parts, ?_⟩
  rw [splitTopLevel, splitFrom_append parts, splitFrom_of_not_mem absent]
  rfl

theorem length_splitTopLevel_append {right : List Char} (absent : '|' ∉ right)
    (text : List Char) :
    (splitTopLevel '|' (text ++ right)).length = (splitTopLevel '|' text).length := by
  obtain ⟨front, last, parts, whole⟩ := exists_splitTopLevel_append absent text
  rw [parts, whole, List.length_append, List.length_append]
  rfl

theorem firstPart_append {right : List Char} (absent : '|' ∉ right) (text : List Char) :
    firstPart (text ++ right) =
      if 1 < (splitTopLevel '|' text).length then firstPart text else firstPart text ++ right := by
  obtain ⟨front, last, parts, whole⟩ := exists_splitTopLevel_append absent text
  rw [firstPart, firstPart, whole, parts]
  cases front with
  | nil => simp
  | cons first rest => simp

/-- A sealed text goes on the first part. -/
theorem firstPart_sealed {left : List Char} (isSealed : Sealed '|' 0 left) (text : List Char) :
    firstPart (left ++ text) = left ++ firstPart text := by
  rw [firstPart, isSealed.splitTopLevel_append, firstPart]
  cases parts : splitTopLevel '|' text with
  | nil => exact absurd parts (splitFrom_ne_nil _ _ _)
  | cons first rest => rfl

/-- Gaps around an expression do not show in its base. -/
theorem trim_firstPart_gaps (text : List Char) {gap other : List Char} (isGap : IsGap gap)
    (also : IsGap other) :
    trim (firstPart (gap ++ text ++ other)) = trim (firstPart text) := by
  have absent : '|' ∉ other := fun member => ne_of_isBlank (also _ member) '|' (by decide) rfl
  rw [List.append_assoc, firstPart_sealed (isGap.sealed (by decide) 0), firstPart_append absent]
  split
  · have nothing : IsGap [] := fun _ member => absurd member List.not_mem_nil
    simpa using isGap.trim_around nothing (firstPart text)
  · rw [← List.append_assoc]
    exact isGap.trim_around also (firstPart text)

end MessageTemplate.Template
