import Mathlib.Data.List.TakeWhile
import MessageTemplate.Template.Place
import MessageTemplate.Proofs.Template.Search

/-! # References in expressions

An expression is cut at bars, and the arguments of its filters at commas and colons. A reference is
never cut, so what it is cut into with a reference at a place is what it is cut into anyway, with the
reference in one of the parts. -/

namespace MessageTemplate.Template

open Text

/-! ## Blanks -/

theorem ne_of_isBlank {c : Char} (blank : isBlank c = true) (mark : Char)
    (dark : isBlank mark = false) : c ≠ mark := by
  rintro rfl
  rw [blank] at dark
  contradiction

theorem admitsCut_of_isBlank {c : Char} (blank : isBlank c = true) :
    Scan.start.admitsCut c = true :=
  admitsCut_of_not_mem (not_mem_scanMarks blank rfl)

namespace IsGap

variable {gap other : List Char}

theorem sealed (isGap : IsGap gap) {separator : Char} (dark : isBlank separator = false)
    (nesting : Nat) : Sealed separator nesting gap :=
  .of_all fun c member =>
    ⟨admitsCut_of_isBlank (isGap c member), ne_of_isBlank (isGap c member) separator dark⟩

theorem trimStart_append (isGap : IsGap gap) (text : List Char) :
    trimStart (gap ++ text) = trimStart text :=
  List.dropWhile_append_of_pos isGap

theorem trimEnd_append (isGap : IsGap gap) (text : List Char) :
    trimEnd (text ++ gap) = trimEnd text := by
  have reversed : ∀ c ∈ gap.reverse, isBlank c = true := fun c member =>
    isGap c (List.mem_reverse.mp member)
  rw [trimEnd, dropEndWhile, List.reverse_append, List.dropWhile_append_of_pos reversed]
  rfl

theorem trimStart_eq_nil (isGap : IsGap gap) : trimStart gap = [] :=
  List.dropWhile_eq_nil_iff.mpr isGap

/-- Blanks behind a text are trimmed. -/
theorem trim_append (isGap : IsGap gap) (text : List Char) : trim (text ++ gap) = trim text := by
  by_cases blank : IsGap text
  · have whole : IsGap (text ++ gap) := fun c member =>
      (List.mem_append.mp member).elim (blank c) (isGap c)
    rw [trim, trim, whole.trimStart_eq_nil, blank.trimStart_eq_nil]
  · have kept : trimStart text ≠ [] := fun empty => blank (List.dropWhile_eq_nil_iff.mp empty)
    have stays : trimStart (text ++ gap) = trimStart text ++ gap := by
      rw [trimStart, List.dropWhile_append, if_neg]
      · rfl
      · exact mt List.isEmpty_iff.mp kept
    rw [trim, stays, isGap.trimEnd_append, trim]

/-- Gaps around a text are trimmed. -/
theorem trim_around (isGap : IsGap gap) (also : IsGap other) (text : List Char) :
    trim (gap ++ text ++ other) = trim text := by
  rw [also.trim_append, trim, isGap.trimStart_append, trim]

end IsGap

theorem isGap_space : IsGap [' '] := by
  intro c member
  rw [List.mem_singleton.mp member]
  decide

/-! ## Bars -/

section Cuts

variable {separator : Char} {state : Scan}

theorem exists_splitFrom (separator : Char) (state : Scan) (text : List Char) :
    ∃ first more, splitFrom separator state text = first :: more :=
  List.exists_cons_of_ne_nil (splitFrom_ne_nil separator state text)

end Cuts

theorem isApart_bar : IsApart '|' :=
  ⟨rfl, by decide, by decide⟩

theorem isApart_comma : IsApart ',' :=
  ⟨rfl, by decide, by decide⟩

theorem isApart_space : IsApart ' ' :=
  ⟨rfl, by decide, by decide⟩

theorem sealed_dot : Sealed '|' 0 ['.'] :=
  .singleton (by decide) (by decide)

theorem sealed_colon : Sealed '|' 0 [':'] :=
  .singleton (by decide) (by decide)

theorem sealed_comma : Sealed '|' 0 [','] :=
  .singleton (by decide) (by decide)

theorem mem_head?_append {text whole : List Char} {c : Char} (isPrefix : text <+: whole)
    (first : c ∈ text.head?) : c ∈ whole.head? := by
  obtain ⟨rest, rfl⟩ := isPrefix
  rw [Option.mem_def, List.head?_append, Option.mem_def.mp first, Option.some_or]

/-- What a text goes on with, a longer one goes on with. -/
theorem mem_head?_trimStart_append {text whole : List Char} {c : Char} (isPrefix : text <+: whole)
    (first : c ∈ (trimStart text).head?) : c ∈ (trimStart whole).head? := by
  obtain ⟨rest, rfl⟩ := isPrefix
  induction text with
  | nil => simp [trimStart] at first
  | cons d others ih =>
    by_cases blank : isBlank d = true
    · simp only [trimStart, List.cons_append, List.dropWhile_cons, blank, ↓reduceIte] at first ih ⊢
      exact ih first
    · simpa [trimStart, blank] using first

theorem Follows.of_prefix {text whole : List Char} (follows : Follows whole)
    (isPrefix : text <+: whole) : Follows text := by
  refine ⟨fun c first => ?_, ?_⟩
  · obtain ⟨other, bracket, stops⟩ := follows.apart c (mem_head?_append isPrefix first)
    obtain ⟨rest, rfl⟩ := isPrefix
    refine ⟨other, bracket, fun dot d second => stops dot d ?_⟩
    have full : text ≠ [] := fun empty => by simp [empty] at first
    rw [List.tail_append_of_ne_nil full]
    exact mem_head?_append (List.prefix_append _ _) second
  by_contra labelled
  have first : ':' ∈ (trimStart text).head? := by
    simpa [isLabelled] using labelled
  have whole := mem_head?_trimStart_append isPrefix first
  have unlabelled := follows.unlabelled
  rw [isLabelled, Option.mem_def.mp whole] at unlabelled
  contradiction

/-! ## The paths of an expression -/

/-- The text of a filter behind its name. -/
theorem argumentText?_cons {name : List Char} (absent : ':' ∉ name) (text : List Char) :
    argumentText? (name ++ ':' :: text) = some text := by
  rw [argumentText?, breakAt_append_cons absent]
  rfl

/-- The characters of names and the blanks around them are no marks. -/
theorem ne_of_isName_trim {name : List Char} (isName : isName (trim name) = true) {mark : Char}
    (dark : isBlank mark = false) (other : isNameStart mark = false ∧ isNameChar mark = false) :
    mark ∉ name := by
  intro member
  have inside := mem_trim member dark
  cases given : trim name with
  | nil =>
    rw [given] at inside
    contradiction
  | cons c rest =>
    rw [given] at inside isName
    obtain ⟨starts, goesOn⟩ := Bool.and_eq_true_iff.mp isName
    rcases List.mem_cons.mp inside with rfl | later
    · rw [starts] at other
      exact absurd other.1 (by decide)
    · have plain := List.all_eq_true.mp goesOn mark later
      rw [plain] at other
      exact absurd other.2 (by decide)

/-- A name is not cut. -/
theorem sealed_of_isName_trim {name : List Char} (isName : isName (trim name) = true)
    {separator : Char} (dark : isBlank separator = false)
    (other : isNameStart separator = false ∧ isNameChar separator = false) (nesting : Nat) :
    Sealed separator nesting name := by
  have marks : scanMarks.any (fun mark => isBlank mark || (isNameStart mark || isNameChar mark)) =
      false := rfl
  refine .of_all fun c member => ⟨admitsCut_of_not_mem fun mark => ?_, ?_⟩
  · have apart := Bool.eq_false_iff.mpr (List.any_eq_false.mp marks c mark)
    simp only [Bool.or_eq_false_iff] at apart
    exact ne_of_isName_trim isName apart.1 apart.2 member
  · rintro rfl
    exact ne_of_isName_trim isName dark other member

theorem isGap_of_stopsAt {tail : List Char} (stops : StopsAt [] tail) : IsGap tail := by
  apply List.dropWhile_eq_nil_iff.mp
  apply List.head?_eq_none_iff.mp
  exact Option.eq_none_iff_forall_not_mem.mpr fun c first => absurd (stops c first) (by simp)

theorem IsGap.stopsAt {gap : List Char} (isGap : IsGap gap) (marks : List Char) :
    StopsAt marks gap := by
  intro c first
  rw [isGap.trimStart_eq_nil] at first
  contradiction

theorem IsGap.stopsAt_append_cons {gap : List Char} (isGap : IsGap gap) {c : Char}
    (dark : isBlank c = false) {marks : List Char} (member : c ∈ marks) (rest : List Char) :
    StopsAt marks (gap ++ c :: rest) := by
  intro d first
  rw [isGap.trimStart_append, trimStart_eq_self (by simpa using dark)] at first
  obtain rfl := Option.some.inj first
  exact member

theorem StopsAt.of_prefix {marks tail first : List Char} (stops : StopsAt marks tail)
    (isPrefix : first <+: tail) : StopsAt marks first :=
  fun c inside => stops c (mem_head?_trimStart_append isPrefix inside)

/-- What is cut at one of the marks stops at the others. -/
theorem StopsAt.split {marks tail : List Char} (stops : StopsAt marks tail) {separator : Char}
    (plain : IsSeparator separator) (dark : isBlank separator = false) :
    ∃ first more, splitTopLevel separator tail = first :: more ∧
      StopsAt (marks.filter (· ≠ separator)) first := by
  have whole : tail.takeWhile isBlank ++ trimStart tail = tail := List.takeWhile_append_dropWhile
  have isGap : IsGap (tail.takeWhile isBlank) := List.all_eq_true.mp List.all_takeWhile
  have parts : splitTopLevel separator tail =
      (splitTopLevel separator (trimStart tail)).modifyHead (tail.takeWhile isBlank ++ ·) := by
    conv_lhs => rw [← whole]
    exact (isGap.sealed dark 0).splitTopLevel_append _
  rw [parts]
  cases given : trimStart tail with
  | nil => exact ⟨_, [], by rw [splitTopLevel, splitFrom]; rfl, by simpa using isGap.stopsAt _⟩
  | cons c rest =>
    have member : c ∈ marks := stops c (by rw [given]; rfl)
    have bright : isBlank c = false := head?_trimStart tail c (by rw [given]; rfl)
    by_cases same : c = separator
    · subst same
      refine ⟨_, _, by rw [splitTopLevel, splitFrom_separator plain]; rfl, ?_⟩
      simpa using isGap.stopsAt _
    · obtain ⟨first, more, cut⟩ := exists_splitFrom separator (Scan.start.next c) rest
      refine ⟨tail.takeWhile isBlank ++ c :: first, more, ?_, ?_⟩
      · rw [splitTopLevel, splitFrom, if_neg (by simp [same]), cut]
        rfl
      · exact isGap.stopsAt_append_cons bright (by simp [member, same]) first

/-! ## The base of an expression -/

/-- Between gaps a reference is the base, and the filters are those behind it. -/
theorem splitFilters_around {lead tail : List Char} (isGap : IsGap lead)
    (stops : StopsAt ['|'] tail) (reference : Reference) :
    splitFilters (String.ofList (lead ++ reference.text ++ tail)) =
      (String.ofList reference.text, (splitFilters (String.ofList tail)).2) := by
  obtain ⟨first, more, cut, blank⟩ := stops.split isApart_bar.plain (by decide)
  have also : IsGap first := isGap_of_stopsAt blank
  have parts : splitTopLevel '|' (lead ++ (reference.text ++ tail)) =
      (lead ++ reference.text ++ first) :: more := by
    rw [(isGap.sealed (by decide) 0).splitTopLevel_append,
      (reference.sealed isApart_bar).splitTopLevel_append, cut, List.append_assoc]
    rfl
  rw [splitFilters, splitFilters, String.toList_ofList, String.toList_ofList, List.append_assoc,
    parts, cut]
  simp only
  rw [isGap.trim_around also reference.text, trim_eq_self reference.tight]

/-! ## The arguments of a filter -/

theorem StartsArgument.sealed {lead : List Char} (starts : StartsArgument lead) {separator : Char}
    (dark : isBlank separator = false) (other : separator ≠ ':')
    (nameless : isNameStart separator = false ∧ isNameChar separator = false) :
    Sealed separator 0 lead := by
  cases starts with
  | positional isGap => exact isGap.sealed dark 0
  | @keyword key gap isName isGap =>
    have colon : Sealed separator 0 [':'] := .singleton (by decide) (Ne.symm other)
    have whole : key ++ ':' :: gap = key ++ ([':'] ++ gap) := rfl
    rw [whole]
    exact (sealed_of_isName_trim isName dark nameless 0).append
      (colon.append (isGap.sealed dark 0))

theorem StartsArgument.sealed_bar {lead : List Char} (starts : StartsArgument lead) :
    Sealed '|' 0 lead :=
  starts.sealed (by decide) (by decide) (by decide)

/-- What leads to an argument does not end its filter. -/
theorem LeadsArgument.sealed {lead : List Char} (leads : LeadsArgument lead) : Sealed '|' 0 lead := by
  cases leads with
  | first starts => exact starts.sealed_bar
  | @further earlier lead closed within starts =>
    have front : Sealed '|' 0 earlier := ⟨within, closed⟩
    have whole : earlier ++ ',' :: lead = earlier ++ ([','] ++ lead) := rfl
    rw [whole]
    exact front.append (sealed_comma.append starts.sealed_bar)

end MessageTemplate.Template
