import MessageTemplate.Proofs.Template.Filters

/-! # References among the values of a branch

The values of a branch are cut at commas and, where quotes and brackets are closed, at the word `or`.
Neither cuts a reference, so it is one of the values (`whenValues_around`). -/

namespace MessageTemplate.Template

open Text

/-! ## The word between values -/

theorem splitTextFrom_ne_nil (separator : List Char) (state : Scan) (skip : Nat)
    (text : List Char) : splitTextFrom separator state skip text ≠ [] := by
  induction text generalizing state skip with
  | nil => simp [splitTextFrom]
  | cons c rest ih =>
    cases skip with
    | succ skip => exact ih state skip
    | zero =>
      rw [splitTextFrom]
      split
      · simp
      · cases given : splitTextFrom separator (state.next c) 0 rest with
        | nil => exact absurd given (ih _ _)
        | cons => simp

theorem splitTextFrom_of_not_prefix {state : Scan} {c : Char} {rest : List Char}
    (other : ¬(state.admitsCut c = true ∧ orText <+: c :: rest)) :
    splitTextFrom orText state 0 (c :: rest) =
      (splitTextFrom orText (state.next c) 0 rest).modifyHead (c :: ·) := by
  rw [splitTextFrom, if_neg]
  simpa [orText] using other

theorem splitTextFrom_or (rest : List Char) :
    splitTextFrom orText .start 0 (orText ++ rest) = [] :: splitTextFrom orText .start 0 rest := by
  rfl

/-- A text without a space outside of quotes and brackets is not cut. -/
theorem splitTextFrom_of_spaceless {state : Scan} {text : List Char}
    (whole : splitFrom ' ' state text = [text]) (rest : List Char) :
    splitTextFrom orText state 0 (text ++ rest) =
      (splitTextFrom orText (text.foldl Scan.next state) 0 rest).modifyHead (text ++ ·) := by
  induction text generalizing state with
  | nil => cases given : splitTextFrom orText state 0 rest <;> simp [given]
  | cons c text ih =>
    rw [splitFrom] at whole
    split at whole
    · simp at whole
    · next other =>
      have inner : splitFrom ' ' (state.next c) text = [text] := by
        cases given : splitFrom ' ' (state.next c) text with
        | nil => exact absurd given (splitFrom_ne_nil _ _ _)
        | cons first more =>
          rw [given] at whole
          obtain ⟨same, rfl⟩ := List.cons.inj whole
          rw [(List.cons.inj same).2]
      have stays : ¬(state.admitsCut c = true ∧ orText <+: c :: (text ++ rest)) := by
        rintro ⟨admits, isPrefix⟩
        obtain rfl : ' ' = c := (List.cons_prefix_cons.mp isPrefix).1
        exact other (by simp [admits])
      rw [List.cons_append, splitTextFrom_of_not_prefix stays, ih inner, List.foldl_cons]
      cases splitTextFrom orText (text.foldl Scan.next (state.next c)) 0 rest <;> rfl

/-- Blanks are not cut, if the word does not start with the last of them. -/
theorem splitTextFrom_of_gap {gap rest : List Char} (isGap : IsGap gap)
    (other : ¬orText.tail <+: rest) :
    splitTextFrom orText .start 0 (gap ++ rest) =
      (splitTextFrom orText .start 0 rest).modifyHead (gap ++ ·) := by
  induction gap with
  | nil => cases given : splitTextFrom orText .start 0 rest <;> simp [given]
  | cons c gap ih =>
    obtain ⟨blank, blanks⟩ := List.forall_mem_cons.mp isGap
    have stays : ¬(Scan.start.admitsCut c = true ∧ orText <+: c :: (gap ++ rest)) := by
      rintro ⟨-, isPrefix⟩
      obtain ⟨-, behind⟩ := List.cons_prefix_cons.mp isPrefix
      cases gap with
      | nil => exact other behind
      | cons d gap =>
        obtain ⟨letter, -⟩ := List.cons_prefix_cons.mp behind
        exact absurd letter.symm (ne_of_isBlank (blanks d List.mem_cons_self) 'o' (by decide))
    rw [List.cons_append, splitTextFrom_of_not_prefix stays,
      Scan.next_of_admitsCut (admitsCut_of_isBlank blank), ih blanks]
    cases splitTextFrom orText .start 0 rest <;> rfl

/-- The word can only start in a text and end behind it if the text ends with all but its last
character. -/
theorem not_orText_prefix {c : Char} {text rest : List Char} (other : ¬orText <+: c :: text)
    (apart : ¬orText.dropLast <:+ c :: text) : ¬orText <+: c :: text ++ (orText ++ rest) := by
  intro isPrefix
  rcases text with - | ⟨d, - | ⟨e, - | ⟨f, text⟩⟩⟩
  · simp [orText] at isPrefix
  · simp [orText] at isPrefix
  · obtain ⟨rfl, rfl, rfl⟩ : ' ' = c ∧ 'o' = d ∧ 'r' = e := by simpa [orText] using isPrefix
    exact apart List.suffix_rfl
  · apply other
    simpa [orText] using isPrefix

/-- Behind a closed text the word cuts. -/
theorem splitTextFrom_append_or {text : List Char} {state : Scan} {skip : Nat} (rest : List Char)
    (fits : skip ≤ text.length) (closed : (text.drop skip).foldl Scan.next state = .start)
    (apart : ¬orText.dropLast <:+ text) :
    splitTextFrom orText state skip (text ++ (orText ++ rest)) =
      splitTextFrom orText state skip text ++ splitTextFrom orText .start 0 rest := by
  induction text generalizing state skip with
  | nil =>
    obtain rfl : skip = 0 := Nat.le_zero.mp fits
    obtain rfl : state = .start := closed
    rw [List.nil_append, splitTextFrom_or]
    rfl
  | cons c text ih =>
    have further : ¬orText.dropLast <:+ text := fun isSuffix =>
      apart (isSuffix.trans (List.suffix_cons c text))
    cases skip with
    | succ skip =>
      have shorter : skip ≤ text.length := Nat.le_of_succ_le_succ fits
      rw [List.cons_append, splitTextFrom, splitTextFrom]
      exact ih shorter closed further
    | zero =>
      by_cases here : state.admitsCut c = true ∧ orText <+: c :: text
      · obtain ⟨admits, behind, rfl, rfl⟩ : state.admitsCut c = true ∧
            ∃ behind, ' ' = c ∧ 'o' :: 'r' :: ' ' :: behind = text := by
          obtain ⟨admits, behind, whole⟩ := here
          exact ⟨admits, behind, List.cons.inj whole⟩
        obtain rfl : state = .start := by
          obtain ⟨quote, nesting⟩ := state
          simp only [Scan.admitsCut, Bool.and_eq_true, Option.isNone_iff_eq_none,
            decide_eq_true_eq] at admits
          obtain ⟨⟨⟨⟨rfl, rfl⟩, -⟩, -⟩, -⟩ := admits
          rfl
        have inner := @ih .start 3 (by simp) closed further
        exact congrArg ([] :: ·) inner
      · have stays : ¬(state.admitsCut c = true ∧ orText <+: c :: (text ++ (orText ++ rest))) := by
          rintro ⟨admits, isPrefix⟩
          exact not_orText_prefix (fun inside => here ⟨admits, inside⟩) apart isPrefix
        rw [List.cons_append, splitTextFrom_of_not_prefix stays, splitTextFrom_of_not_prefix here,
          ih (Nat.zero_le _) closed further]
        obtain ⟨first, more, given⟩ :=
          List.exists_cons_of_ne_nil (splitTextFrom_ne_nil orText (state.next c) 0 text)
        rw [given]
        rfl

/-! ## The values of a branch -/

theorem Reference.length_text (reference : Reference) : 3 ≤ reference.text.length := by
  obtain ⟨step, rest, given⟩ := List.exists_cons_of_ne_nil reference.continued
  have written := reference.written
  rw [given, List.all_cons, Bool.and_eq_true] at written
  obtain ⟨c, word, text, -⟩ | ⟨inner, text, -⟩ := ReferenceStep.text_eq written.1
  all_goals
    simp only [Reference.text, textOfSteps, given, List.flatMap_cons, text, List.length_cons,
      List.length_append]
    omega

/-- A reference does not start with the word. -/
theorem Reference.not_or_prefix (reference : Reference) (rest : List Char) :
    ¬orText.tail <+: reference.text ++ rest := by
  intro isPrefix
  have inside : orText.tail <+: reference.text :=
    List.prefix_of_prefix_length_le isPrefix (List.prefix_append _ _) reference.length_text
  obtain ⟨more, text⟩ := inside
  have spaceless : Sealed ' ' 0 reference.text := reference.sealed isApart_space
  have whole : splitFrom ' ' .start reference.text = [reference.text] := spaceless.whole
  rw [← text] at whole
  have cut : splitFrom ' ' .start (orText.tail ++ more) =
      ['o', 'r'] :: splitFrom ' ' .start more := rfl
  rw [cut] at whole
  exact absurd (List.cons.inj whole).1 (by simp [orText])

/-- What stands behind a value ends it. -/
theorem FollowsValue.cut {tail : List Char} (follows : FollowsValue tail) :
    ∃ first more, splitTopLevel ',' tail = first :: more ∧ ∃ gap values, IsGap gap ∧
      splitTextFrom orText .start 0 first = gap :: values := by
  cases follows with
  | comma stops =>
    obtain ⟨first, more, cut, blank⟩ := stops.split isApart_comma.plain (by decide)
    have isGap : IsGap first := isGap_of_stopsAt blank
    refine ⟨first, more, cut, first, [], isGap, ?_⟩
    have nothing : ¬orText.tail <+: [] := by simp [orText]
    have parts := splitTextFrom_of_gap isGap nothing
    rw [List.append_nil] at parts
    rw [parts, splitTextFrom]
    simp
  | @or gap tail isGap =>
    obtain ⟨first, more, cut⟩ := exists_splitFrom ',' .start tail
    have word : Sealed ',' 0 orText := ⟨rfl, rfl⟩
    refine ⟨gap ++ orText ++ first, more, ?_, gap, splitTextFrom orText .start 0 first, isGap, ?_⟩
    · rw [((isGap.sealed (by decide) 0).append word).splitTopLevel_append, splitTopLevel, cut]
      rfl
    · rw [List.append_assoc, splitTextFrom_of_gap isGap (by simp [orText]), splitTextFrom_or]
      simp

/-- A value that is a reference stays one behind what leads to it. -/
theorem StartsValue.parts {lead first gap : List Char} {values : List (List Char)}
    (starts : StartsValue lead)
    (cut : splitTextFrom orText .start 0 first = gap :: values) :
    ∃ earlier before, IsGap before ∧ ∀ reference : Reference,
      splitTopLevelText orText (lead ++ (reference.text ++ first)) =
        earlier ++ (before ++ reference.text ++ gap) :: values := by
  have bare : ∀ {before : List Char}, IsGap before → ∀ reference : Reference,
      splitTextFrom orText .start 0 (before ++ (reference.text ++ first)) =
        (before ++ reference.text ++ gap) :: values := fun isGap reference => by
    have spaceless : Sealed ' ' 0 reference.text := reference.sealed isApart_space
    have whole : splitFrom ' ' .start reference.text = [reference.text] := spaceless.whole
    have closed : reference.text.foldl Scan.next .start = .start := spaceless.closed
    rw [splitTextFrom_of_gap isGap (reference.not_or_prefix first),
      splitTextFrom_of_spaceless whole, closed, cut, List.append_assoc]
    rfl
  cases starts with
  | first also => exact ⟨[], lead, also, bare also⟩
  | @or earlier before isSealed apart also =>
    refine ⟨splitTextFrom orText .start 0 earlier, before, also, fun reference => ?_⟩
    have closed : earlier.foldl Scan.next .start = .start := isSealed.closed
    rw [splitTopLevelText, List.append_assoc, List.append_assoc,
      splitTextFrom_append_or _ (Nat.zero_le _) closed apart, bare also]

theorem StartsValue.sealed {lead : List Char} (starts : StartsValue lead) : Sealed ',' 0 lead := by
  cases starts with
  | first isGap => exact isGap.sealed (by decide) 0
  | or isSealed _ isGap =>
    have word : Sealed ',' 0 orText := ⟨rfl, rfl⟩
    exact (isSealed.append word).append (isGap.sealed (by decide) 0)

end MessageTemplate.Template
