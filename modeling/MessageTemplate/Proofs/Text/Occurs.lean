import MessageTemplate.Text.Basic
import Mathlib.Data.List.Chain

/-! # Finding a text

A text is not found where it does not occur, and is found behind a text without its first character.
Delimiters are two characters long: a text without a delimiter is one in which no character is
followed by the other, and such a text is passed by the search for a delimiter that stands behind
it. -/

namespace MessageTemplate.Text

theorem breakOn_cons_of_not_prefix {needle : List Char} {c : Char} {rest : List Char}
    (other : needle.isPrefixOf? (c :: rest) = none) :
    breakOn needle (c :: rest) =
      (breakOn needle rest).map fun (before, after) => (c :: before, after) := by
  rw [breakOn, other]

theorem breakOn_eq_none {needle text : List Char} (absent : ¬needle <:+: text) :
    breakOn needle text = none := by
  refine Option.eq_none_iff_forall_ne_some.mpr fun (before, after) found => absent ?_
  exact ⟨before, after, (breakOn_eq_some found).symm⟩

/-- A text is found behind one that does not hold its first character. -/
theorem breakOn_append {c : Char} {needle lead : List Char} (absent : c ∉ lead) (rest : List Char) :
    breakOn (c :: needle) (lead ++ (c :: needle) ++ rest) = some (lead, rest) := by
  induction lead with
  | nil =>
    have cut := isPrefixOf?_append (c :: needle) rest
    rw [List.nil_append, List.cons_append, breakOn]
    rw [List.cons_append] at cut
    rw [cut]
  | cons d lead ih =>
    obtain ⟨other, others⟩ := List.ne_and_not_mem_of_not_mem_cons absent
    have passes : (c :: needle).isPrefixOf? (d :: (lead ++ (c :: needle) ++ rest)) = none := by
      simp [List.isPrefixOf?, other]
    rw [List.cons_append, List.cons_append, breakOn_cons_of_not_prefix passes, ih others]
    rfl

/-! ## Longer texts -/

section Longer

variable {needle text : List Char} (more : List Char)

theorem isPrefixOf?_append_right (long : needle.length ≤ text.length) :
    needle.isPrefixOf? (text ++ more) = (needle.isPrefixOf? text).map (· ++ more) := by
  induction needle generalizing text with
  | nil => rfl
  | cons c needle ih =>
    cases text with
    | nil => simp at long
    | cons d text =>
      by_cases same : c = d
      · subst same
        simpa [List.isPrefixOf?] using ih (Nat.le_of_succ_le_succ long)
      · simp [List.isPrefixOf?, same]

/-- What is cut off a text is cut off a longer one. -/
theorem isPrefixOf?_append_of_eq_some {rest : List Char}
    (cut : needle.isPrefixOf? text = some rest) :
    needle.isPrefixOf? (text ++ more) = some (rest ++ more) := by
  rw [isPrefixOf?_eq_some cut, List.append_assoc, isPrefixOf?_append]

/-- A text that is found is found at the same place when more text follows. -/
theorem breakOn_append_of_eq_some {before after : List Char}
    (found : breakOn needle text = some (before, after)) :
    breakOn needle (text ++ more) = some (before, after ++ more) := by
  induction text generalizing before with
  | nil =>
    rw [breakOn] at found
    split at found
    · next empty =>
      obtain ⟨rfl, rfl⟩ := Prod.mk.inj (Option.some.inj found)
      obtain rfl := List.isEmpty_iff.mp empty
      cases more <;> rfl
    · contradiction
  | cons c rest ih =>
    rw [breakOn] at found
    rw [List.cons_append, breakOn, ← List.cons_append]
    split at found
    · next cut =>
      obtain ⟨rfl, rfl⟩ := Prod.mk.inj (Option.some.inj found)
      rw [isPrefixOf?_append_of_eq_some more cut]
    · next other =>
      obtain ⟨⟨inner, tail⟩, cut, joined⟩ := Option.map_eq_some_iff.mp found
      obtain ⟨rfl, rfl⟩ := Prod.mk.inj joined
      have long : needle.length ≤ (c :: rest).length := by
        have := congrArg List.length (breakOn_eq_some cut)
        simp only [List.length_append, List.length_cons] at this ⊢
        omega
      rw [isPrefixOf?_append_right more long, other, Option.map_none, ih cut]
      rfl

/-- A character that a prefix does not hold ends it. -/
theorem isPrefixOf?_append_cons {mark : Char} (absent : mark ∉ needle) :
    needle.isPrefixOf? (text ++ mark :: more) =
      (needle.isPrefixOf? text).map (· ++ mark :: more) := by
  induction needle generalizing text with
  | nil => rfl
  | cons c needle ih =>
    obtain ⟨other, others⟩ := List.ne_and_not_mem_of_not_mem_cons absent
    cases text with
    | nil => simp [List.isPrefixOf?, Ne.symm other]
    | cons d text =>
      by_cases same : c = d
      · subst same
        simpa [List.isPrefixOf?] using ih others
      · simp [List.isPrefixOf?, same]

/-- Behind a character that a text does not hold, its occurrences are found as they are there. -/
theorem breakOn_append_cons {mark : Char} (full : needle ≠ []) (absent : mark ∉ needle)
    (none : breakOn needle text = none) :
    breakOn needle (text ++ mark :: more) =
      (breakOn needle more).map fun (before, after) => (text ++ mark :: before, after) := by
  induction text with
  | nil =>
    have passes : needle.isPrefixOf? (mark :: more) = Option.none := by
      have ends := @isPrefixOf?_append_cons needle [] more mark absent
      cases needle with
      | nil => contradiction
      | cons c needle => simpa [List.isPrefixOf?] using ends
    rw [List.nil_append, breakOn_cons_of_not_prefix passes]
    rfl
  | cons c rest ih =>
    rw [breakOn] at none
    split at none
    · contradiction
    · next other =>
      have passes : needle.isPrefixOf? (c :: (rest ++ mark :: more)) = Option.none := by
        rw [← List.cons_append, isPrefixOf?_append_cons more absent, other]
        rfl
      rw [List.cons_append, breakOn_cons_of_not_prefix passes,
        ih (Option.map_eq_none_iff.mp none), Option.map_map]
      rfl

end Longer

/-! ## Replaced characters -/

section Replaced

variable {needle text : List Char} {change : Char → Char}

theorem isPrefixOf?_map (kept : ∀ d ∈ needle, ∀ c, change c = d ↔ c = d) :
    needle.isPrefixOf? (text.map change) = (needle.isPrefixOf? text).map (List.map change) := by
  induction needle generalizing text with
  | nil => rfl
  | cons d needle ih =>
    obtain ⟨first, others⟩ := List.forall_mem_cons.mp kept
    cases text with
    | nil => rfl
    | cons c text =>
      by_cases same : c = d
      · subst same
        have changed := (first c).mpr rfl
        simpa [List.isPrefixOf?, changed] using ih others
      · have changed := mt (first c).mp same
        simp [List.isPrefixOf?, Ne.symm same, Ne.symm changed]

/-- A text is found where it was when characters that it does not hold are replaced. -/
theorem breakOn_map (kept : ∀ d ∈ needle, ∀ c, change c = d ↔ c = d) :
    breakOn needle (text.map change) = (breakOn needle text).map fun (before, after) =>
      (before.map change, after.map change) := by
  induction text with
  | nil => cases needle <;> rfl
  | cons c rest ih =>
    have same := @isPrefixOf?_map needle (c :: rest) change kept
    rw [List.map_cons] at same
    rw [List.map_cons, breakOn, breakOn, same]
    cases needle.isPrefixOf? (c :: rest) with
    | some after => rfl
    | none =>
      simp only [Option.map_none, ih, Option.map_map]
      rfl

end Replaced

/-! ## Two characters -/

/-- The first of two characters is not followed by the second one. -/
def Parts (first second : Char) (text : List Char) : Prop :=
  text.IsChain fun c d => ¬(c = first ∧ d = second)

variable {first second : Char} {text : List Char}

theorem isPrefixOf?_pair_cons {c : Char} {rest : List Char} :
    [first, second].isPrefixOf? (c :: rest) = none ↔
      ¬(c = first ∧ ∃ d ∈ rest.head?, d = second) := by
  by_cases same : first = c
  · subst same
    cases rest with
    | nil => simp [List.isPrefixOf?]
    | cons d rest =>
      by_cases also : second = d
      · simp [List.isPrefixOf?, also]
      · simp [List.isPrefixOf?, also, Ne.symm also]
  · simp [List.isPrefixOf?, same, Ne.symm same]

theorem occurs_pair_cons {c : Char} {rest : List Char} :
    ¬occurs [first, second] (c :: rest) ↔
      ¬(c = first ∧ ∃ d ∈ rest.head?, d = second) ∧ ¬occurs [first, second] rest := by
  rw [← isPrefixOf?_pair_cons]
  cases cut : [first, second].isPrefixOf? (c :: rest) with
  | none => simp [occurs, breakOn_cons_of_not_prefix cut]
  | some after => simp [occurs, breakOn, cut]

/-- Two characters occur in a text exactly if one follows the other. -/
theorem parts_iff : Parts first second text ↔ ¬occurs [first, second] text := by
  induction text with
  | nil => simp [Parts, occurs, breakOn]
  | cons c rest ih =>
    rw [occurs_pair_cons, ← ih]
    cases rest with
    | nil => simp [Parts]
    | cons d rest => simp [Parts]

theorem parts_append {left right : List Char} :
    Parts first second (left ++ right) ↔ Parts first second left ∧ Parts first second right ∧
      ∀ c ∈ left.getLast?, ∀ d ∈ right.head?, ¬(c = first ∧ d = second) :=
  List.isChain_append

theorem parts_of_not_mem (absent : first ∉ text) :
    Parts first second text := by
  induction text with
  | nil => exact .nil
  | cons c rest ih =>
    obtain ⟨other, others⟩ := List.ne_and_not_mem_of_not_mem_cons absent
    refine List.IsChain.cons (ih others) fun d _ same => other same.1.symm

theorem parts_snoc {c : Char} (parts : Parts first second text)
    (other : c ≠ second) : Parts first second (text ++ [c]) := by
  refine parts_append.mpr ⟨parts, .singleton c, fun _ _ d last both => ?_⟩
  obtain rfl : c = d := Option.some.inj last
  exact other both.2

/-- The search for two characters passes a text in which they do not follow each other, not even at
its end. -/
theorem Parts.breakOn (parts : Parts first second (text ++ [first])) (rest : List Char) :
    breakOn [first, second] (text ++ first :: second :: rest) = some (text, rest) := by
  induction text with
  | nil => simp [Text.breakOn, List.isPrefixOf?]
  | cons c text ih =>
    have apart : ¬(c = first ∧ ∃ d ∈ (text ++ [first]).head?, d = second) := by
      have absent := parts_iff.mp parts
      rw [List.cons_append, occurs_pair_cons] at absent
      exact absent.1
    have further : Parts first second (text ++ [first]) := List.IsChain.tail parts
    have passes : [first, second].isPrefixOf? (c :: (text ++ first :: second :: rest)) = none := by
      rw [isPrefixOf?_pair_cons]
      cases text with
      | nil => exact apart
      | cons d text => exact apart
    rw [List.cons_append, breakOn_cons_of_not_prefix passes, ih further]
    rfl

/-- Two characters are found where the first one is not followed by the second one before. -/
theorem parts_of_breakOn {before after : List Char}
    (found : Text.breakOn [first, second] text = some (before, after)) :
    Parts first second (before ++ [first]) := by
  induction text generalizing before with
  | nil => simp [Text.breakOn] at found
  | cons c rest ih =>
    rw [Text.breakOn] at found
    split at found
    · obtain ⟨rfl, rfl⟩ := Prod.mk.inj (Option.some.inj found)
      exact .singleton first
    · next other =>
      obtain ⟨⟨inner, tail⟩, cut, joined⟩ := Option.map_eq_some_iff.mp found
      obtain ⟨rfl, rfl⟩ := Prod.mk.inj joined
      have apart := isPrefixOf?_pair_cons.mp other
      rw [breakOn_eq_some cut] at apart
      refine List.IsChain.cons (ih cut) fun d head both => apart ⟨both.1, d, ?_, both.2⟩
      cases inner with
      | nil => exact head
      | cons e inner => exact head

end MessageTemplate.Text
