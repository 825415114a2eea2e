import MessageTemplate.Path
import MessageTemplate.StepPath
import MessageTemplate.Proofs.Text.Trim

/-! # Writing steps and reading them back

Legible steps are read back from the path that they are written as (`Legible.split?_join`). Their
names are not empty and hold none of the characters that paths are cut at, their positions are
counts, and no blank stands where it is trimmed: at the start of the first name, or at the end of a
name that comes last. Tidy steps are legible also without their positions (`split?_join`). -/

namespace MessageTemplate

open Text

/-- Whether a step is read back when it is written: its position is a count, or its name is not
empty and holds none of the characters that paths are cut at. -/
def Segment.isTidy : Segment → Bool
  | .key name => name ≠ "" && name.toList.all StepPath.isStepChar
  | .index position => position ≤ maxCount

namespace Path

/-- Steps that are read back when they are written. The first one is a property, and the path has no
blanks at its ends that are given up when it is trimmed. -/
structure Legible (segments : List Segment) : Prop where
  starts : ∃ name rest, segments = .key name :: rest ∧ ∀ c ∈ name.toList.head?, isBlank c = false
  all : ∀ segment ∈ segments, segment.isTidy
  ends : ∀ name, segments.getLast? = some (.key name) → ∀ c ∈ name.toList.getLast?, isBlank c = false

/-- The last of some names does not end with a blank. -/
def DarkEnd (names : List String) : Prop :=
  ∀ name ∈ names.getLast?, ∀ c ∈ name.toList.getLast?, isBlank c = false

/-- Steps that are read back when they are written, with or without their positions. The first one is
a property, and the first and the last name do not give up blanks when the path is trimmed. -/
structure Tidy (segments : List Segment) : Prop where
  starts : ∃ name rest, segments = .key name :: rest ∧ ∀ c ∈ name.toList.head?, isBlank c = false
  all : ∀ segment ∈ segments, segment.isTidy
  ends : DarkEnd (segments.filterMap Segment.key?)

theorem Tidy.legible {segments : List Segment} (tidy : Tidy segments) : Legible segments := by
  refine ⟨tidy.starts, tidy.all, fun name last => tidy.ends name ?_⟩
  obtain ⟨front, rfl⟩ := List.getLast?_eq_some_iff.mp last
  rw [List.filterMap_append]
  exact List.getLast?_concat

/-! ## Reading between dots -/

/-- A text is read from its first dot on. -/
theorem dotted_induction {motive : List Char → Prop} (text : List Char)
    (single : ∀ text, '.' ∉ text → motive text)
    (more : ∀ left right, '.' ∉ left → motive right → motive (left ++ '.' :: right)) :
    motive text := by
  cases cut : breakAt '.' text with
  | none => exact single text (breakAt_eq_none_iff.mp cut)
  | some sides =>
    obtain ⟨left, right⟩ := sides
    obtain ⟨whole, plain⟩ := breakAt_eq_some cut
    rw [whole]
    exact more left right plain (dotted_induction right single more)
termination_by text.length
decreasing_by
  rw [whole]
  simp
  omega

theorem parts?_of_not_mem {text : List Char} (plain : '.' ∉ text) : parts? text = part? text := by
  rw [parts?, List.splitOn_eq_singleton plain, List.mapM_cons, List.mapM_nil]
  cases part? text with
  | none => rfl
  | some segments => simp

theorem parts?_append_dot (left right : List Char) :
    parts? (left ++ '.' :: right) = do
      let first ← parts? left
      let others ← parts? right
      return first ++ others := by
  rw [parts?, parts?, parts?, List.splitOn_append_cons_self, List.mapM_append]
  cases (left.splitOn '.').mapM part? with
  | none => rfl
  | some first =>
    cases (right.splitOn '.').mapM part? with
    | none => rfl
    | some others => simp

/-! ## Writing positions -/

/-- Positions in brackets, one after the other. -/
def positionText (positions : List Nat) : List Char :=
  positions.flatMap fun position => '[' :: Nat.toDigits 10 position ++ [']']

theorem not_mem_toDigits {c : Char} (other : c.isDigit = false) (n : Nat) :
    c ∉ Nat.toDigits 10 n := by
  intro member
  have := Nat.isDigit_of_mem_toDigits (by decide) (by decide) member
  simp [other] at this

theorem isBlank_of_isDigit {c : Char} (digit : c.isDigit = true) : isBlank c = false := by
  simp only [Char.isDigit, Bool.and_eq_true, decide_eq_true_eq] at digit
  have low : 48 ≤ c.toNat := digit.1
  have high : c.toNat ≤ 57 := digit.2
  simp [isBlank, Ranges.has, blankRanges]
  omega

theorem tight_toDigits (n : Nat) : Tight (Nat.toDigits 10 n) := by
  constructor
  · intro c first
    exact isBlank_of_isDigit
      (Nat.isDigit_of_mem_toDigits (by decide) (by decide) (List.mem_of_mem_head? first))
  · intro c last
    exact isBlank_of_isDigit
      (Nat.isDigit_of_mem_toDigits (by decide) (by decide) (List.mem_of_mem_getLast? last))

theorem count?_toDigits {n : Nat} (bounded : n ≤ maxCount) :
    count? (Nat.toDigits 10 n) = some n := by
  unfold count?
  split
  · next rest signed =>
    exact absurd (signed ▸ List.mem_cons_self) (not_mem_toDigits (c := '+') rfl n)
  · dsimp only
    rw [digits?_toDigits, Option.filter_some, if_pos (by simpa using bounded)]

theorem positionText_cons (position : Nat) (positions : List Nat) :
    positionText (position :: positions) =
      '[' :: (Nat.toDigits 10 position ++ ']' :: positionText positions) := by
  simp [positionText]

theorem positionText_append_singleton (positions : List Nat) (position : Nat) :
    positionText (positions ++ [position]) =
      positionText positions ++ '[' :: (Nat.toDigits 10 position ++ [']']) := by
  simp [positionText]

theorem brackets?_positionText {positions : List Nat}
    (bounded : ∀ position ∈ positions, position ≤ maxCount) :
    brackets? (positionText positions) = some (positions.map .index) := by
  induction positions with
  | nil => rw [positionText, List.flatMap_nil, brackets?]; rfl
  | cons position positions ih =>
    have inner : Segment.ofBracket? (trim (Nat.toDigits 10 position)) = some (.index position) := by
      unfold Segment.ofBracket?
      rw [trim_eq_self (tight_toDigits position),
        count?_toDigits (bounded position List.mem_cons_self)]
    have cut := breakAt_append_cons (not_mem_toDigits (c := ']') rfl position)
      (positionText positions)
    rw [positionText_cons, brackets?, if_pos rfl]
    split
    · next missing => cases cut.symm.trans missing
    · next inside after found =>
      cases cut.symm.trans found
      rw [inner, ih fun other member => bounded other (List.mem_cons_of_mem _ member)]
      rfl

theorem part?_append_positionText {name : List Char} {positions : List Nat} (full : name ≠ [])
    (plain : name.all StepPath.isStepChar) (bounded : ∀ position ∈ positions, position ≤ maxCount) :
    part? (name ++ positionText positions) =
      some (.key (String.ofList name) :: positions.map .index) := by
  have unopened : ∀ c ∈ name, decide (c ≠ '[') = true := by
    intro c member
    have := List.all_eq_true.mp plain c member
    simp only [StepPath.isStepChar, Bool.and_eq_true] at this
    exact this.1.2
  have unclosed : name.contains ']' = false := by
    rw [← Bool.not_eq_true, List.contains_iff_mem]
    intro member
    have := List.all_eq_true.mp plain _ member
    simp [StepPath.isStepChar] at this
  have named : (name ++ positionText positions).takeWhile (· ≠ '[') = name := by
    rw [List.takeWhile_append_of_pos unopened]
    cases positions with
    | nil => exact List.append_nil name
    | cons position positions => rw [positionText_cons]; simp
  have behind : (name ++ positionText positions).dropWhile (· ≠ '[') =
      positionText positions := by
    rw [List.dropWhile_append_of_pos unopened]
    cases positions with
    | nil => rfl
    | cons position positions => rw [positionText_cons]; simp
  rw [part?, named, behind, unclosed, brackets?_positionText bounded]
  cases name with
  | nil => exact absurd rfl full
  | cons c name => rfl

/-! ## Writing steps -/

theorem joinFrom_true_key (name : String) (rest : List Segment) :
    joinFrom true (.key name :: rest) = '.' :: (name.toList ++ joinFrom true rest) := by
  simp [joinFrom]

theorem joinFrom_true_index (position : Nat) (rest : List Segment) :
    joinFrom true (.index position :: rest) =
      '[' :: (Nat.toDigits 10 position ++ ']' :: joinFrom true rest) := by
  simp [joinFrom]

theorem joinFrom_false_key {name : String} (full : name ≠ "") (rest : List Segment) :
    joinFrom false (.key name :: rest) = name.toList ++ joinFrom true rest := by
  have written : name.toList.isEmpty = false := by
    rw [List.isEmpty_eq_false_iff]
    exact fun empty => full (String.toList_eq_nil_iff.mp empty)
  simp [joinFrom, written]

theorem joinFrom_append (segments more : List Segment) :
    joinFrom true (segments ++ more) = joinFrom true segments ++ joinFrom true more := by
  induction segments with
  | nil => rfl
  | cons segment rest ih =>
    cases segment with
    | key name => simp [joinFrom_true_key, ih]
    | index position => simp [joinFrom_true_index, ih]

theorem parts?_append_positionText {name : List Char} {positions : List Nat} (full : name ≠ [])
    (plain : name.all StepPath.isStepChar) (bounded : ∀ position ∈ positions, position ≤ maxCount) :
    parts? (name ++ positionText positions) =
      some (.key (String.ofList name) :: positions.map .index) := by
  have dotless : '.' ∉ name ++ positionText positions := by
    intro member
    rcases List.mem_append.mp member with inside | behind
    · have := List.all_eq_true.mp plain _ inside
      simp [StepPath.isStepChar] at this
    · obtain ⟨position, -, inside⟩ := List.mem_flatMap.mp behind
      have := not_mem_toDigits (c := '.') rfl position
      simp_all
  rw [parts?_of_not_mem dotless, part?_append_positionText full plain bounded]

/-- Steps that are written behind a property and its positions are read as they were. -/
theorem parts?_append_joinFrom {name : List Char} {positions : List Nat} {segments : List Segment}
    (full : name ≠ []) (plain : name.all StepPath.isStepChar)
    (bounded : ∀ position ∈ positions, position ≤ maxCount)
    (tidy : ∀ segment ∈ segments, segment.isTidy) :
    parts? (name ++ positionText positions ++ joinFrom true segments) =
      some (.key (String.ofList name) :: positions.map .index ++ segments) := by
  induction segments generalizing name positions with
  | nil =>
    rw [joinFrom, List.append_nil, List.append_nil,
      parts?_append_positionText full plain bounded]
  | cons segment segments ih =>
    have here := tidy segment List.mem_cons_self
    have others := fun other member => tidy other (List.mem_cons_of_mem segment member)
    cases segment with
    | index position =>
      -- the position joins those that stand behind the property
      have longer : ∀ other ∈ positions ++ [position], other ≤ maxCount := by
        intro other member
        rcases List.mem_append.mp member with old | new
        · exact bounded other old
        · rw [List.mem_singleton.mp new]
          exact of_decide_eq_true here
      have step := ih full plain longer others
      rw [joinFrom_true_index]
      rw [positionText_append_singleton] at step
      simpa using step
    | key next =>
      simp only [Segment.isTidy, Bool.and_eq_true, decide_eq_true_eq] at here
      have nextFull : next.toList ≠ [] := fun empty => here.1 (String.toList_eq_nil_iff.mp empty)
      have step := @ih next.toList [] nextFull here.2 (by simp) others
      have first := parts?_append_positionText full plain bounded
      rw [positionText, List.flatMap_nil, List.append_nil] at step
      rw [joinFrom_true_key, parts?_append_dot, first, step]
      simp

/-! ## Reading back what has been written -/

theorem toList_ne_nil_of_isTidy {name : String} (tidy : (Segment.key name).isTidy) :
    name.toList ≠ [] := by
  simp only [Segment.isTidy, Bool.and_eq_true, decide_eq_true_eq] at tidy
  exact fun empty => tidy.1 (String.toList_eq_nil_iff.mp empty)

theorem isStepChar_of_isTidy {name : String} (tidy : (Segment.key name).isTidy) :
    name.toList.all StepPath.isStepChar := by
  simp only [Segment.isTidy, Bool.and_eq_true, decide_eq_true_eq] at tidy
  exact tidy.2

/-- Steps do not end with a blank if a name that comes last does not, or the text before them if there
are none. -/
theorem getLast?_append_joinFrom {text : List Char} {segments : List Segment}
    (before : segments = [] → ∀ c ∈ text.getLast?, isBlank c = false)
    (ends : ∀ name, segments.getLast? = some (.key name) →
      ∀ c ∈ name.toList.getLast?, isBlank c = false)
    (tidy : ∀ segment ∈ segments, segment.isTidy) :
    ∀ c ∈ (text ++ joinFrom true segments).getLast?, isBlank c = false := by
  induction segments generalizing text with
  | nil => simpa [joinFrom] using before rfl
  | cons segment segments ih =>
    have here := tidy segment List.mem_cons_self
    have others := fun other member => tidy other (List.mem_cons_of_mem segment member)
    have later : ∀ name, segments.getLast? = some (.key name) →
        ∀ c ∈ name.toList.getLast?, isBlank c = false := by
      intro name last
      refine ends name ?_
      rw [List.getLast?_cons, last]
      rfl
    cases segment with
    | index position =>
      rw [joinFrom_true_index]
      have closed : ∀ c ∈ (text ++ '[' :: (Nat.toDigits 10 position ++ [']'])).getLast?,
          isBlank c = false := by
        intro c last
        rw [← List.cons_append, ← List.append_assoc, List.getLast?_concat] at last
        cases last
        decide
      have := ih (fun _ => closed) later others
      simpa using this
    | key name =>
      rw [joinFrom_true_key]
      have named : segments = [] →
          ∀ c ∈ (text ++ '.' :: name.toList).getLast?, isBlank c = false := by
        rintro rfl c final
        rw [← List.concat_append, List.getLast?_append_of_ne_nil _ (toList_ne_nil_of_isTidy here)]
          at final
        exact ends name rfl c final
      have := ih named later others
      simpa using this

theorem toList_join {name : String} {rest : List Segment} (tidy : (Segment.key name).isTidy) :
    (join (.key name :: rest)).toList = name.toList ++ joinFrom true rest := by
  have full : name ≠ "" := fun empty => toList_ne_nil_of_isTidy tidy (by rw [empty]; rfl)
  rw [join, String.toList_ofList, joinFrom_false_key full]

namespace Legible

variable {segments : List Segment} (legible : Legible segments)

include legible

theorem toList_join_append (more : List Segment) :
    (join (segments ++ more)).toList = (join segments).toList ++ joinFrom true more := by
  obtain ⟨name, rest, rfl, -⟩ := legible.starts
  have here := legible.all _ List.mem_cons_self
  rw [List.cons_append, toList_join here, toList_join here, joinFrom_append, List.append_assoc]

/-- A legible path has no blanks at its ends. -/
theorem tight : Tight (join segments).toList := by
  obtain ⟨name, rest, rfl, dark⟩ := legible.starts
  have here := legible.all _ List.mem_cons_self
  have named := toList_ne_nil_of_isTidy here
  rw [toList_join here]
  constructor
  · intro c first
    rw [List.head?_append_of_ne_nil _ named] at first
    exact dark c first
  · refine getLast?_append_joinFrom ?_ (fun other last => legible.ends other ?_)
      fun segment member => legible.all segment (List.mem_cons_of_mem _ member)
    · rintro rfl
      exact legible.ends name rfl
    · rw [List.getLast?_cons, last]
      rfl

/-- Legible steps are read back from the path that they are written as. -/
theorem split?_join : split? (join segments) = some segments := by
  have untrimmed := trim_eq_self legible.tight
  obtain ⟨name, rest, rfl, -⟩ := legible.starts
  have here := legible.all _ List.mem_cons_self
  have others := fun other member => legible.all other (List.mem_cons_of_mem _ member)
  have named := toList_ne_nil_of_isTidy here
  have plain := isStepChar_of_isTidy here
  have unopened : (name.toList ++ joinFrom true rest).head? ≠ some '[' := by
    rw [List.head?_append_of_ne_nil _ named]
    intro first
    have := List.all_eq_true.mp plain _ (List.mem_of_mem_head? first)
    simp [StepPath.isStepChar] at this
  have whole := @parts?_append_joinFrom name.toList [] rest named plain (by simp) others
  rw [split?, untrimmed, toList_join here, if_neg unopened]
  simpa [positionText] using whole

end Legible

/-- A tidy path has no blanks at its ends. -/
theorem Tidy.tight {segments : List Segment} (tidy : Tidy segments) :
    Tight (join segments).toList :=
  tidy.legible.tight

/-- Tidy steps are read back from the path that they are written as. -/
theorem split?_join {segments : List Segment} (tidy : Tidy segments) :
    split? (join segments) = some segments :=
  tidy.legible.split?_join

end Path

end MessageTemplate
