import MessageTemplate.Text.Basic
import Mathlib.Data.List.Basic

/-! # Texts without blanks at their ends

Trimming changes a text exactly if it starts or ends with a blank. What is cut off at a mark is
found again if the mark does not occur before. -/

namespace MessageTemplate.Text

/-- A text that neither starts nor ends with a blank. -/
def Tight (text : List Char) : Prop :=
  (∀ c ∈ text.head?, isBlank c = false) ∧ ∀ c ∈ text.getLast?, isBlank c = false

theorem dropWhile_eq_self {p : Char → Bool} {text : List Char}
    (stops : ∀ c ∈ text.head?, p c = false) : text.dropWhile p = text := by
  cases text with
  | nil => rfl
  | cons c rest => exact List.dropWhile_cons_of_neg (by simp [stops c rfl])

theorem dropEndWhile_eq_self {p : Char → Bool} {text : List Char}
    (stops : ∀ c ∈ text.getLast?, p c = false) : dropEndWhile p text = text := by
  rw [dropEndWhile, dropWhile_eq_self fun c first => stops c (by simpa using first),
    List.reverse_reverse]

theorem trimStart_eq_self {text : List Char} (starts : ∀ c ∈ text.head?, isBlank c = false) :
    trimStart text = text :=
  dropWhile_eq_self starts

theorem trimEnd_eq_self {text : List Char} (ends : ∀ c ∈ text.getLast?, isBlank c = false) :
    trimEnd text = text :=
  dropEndWhile_eq_self ends

theorem trim_eq_self {text : List Char} (tight : Tight text) : trim text = text := by
  rw [trim, trimStart_eq_self tight.1, trimEnd_eq_self tight.2]

theorem head?_trimStart (text : List Char) : ∀ c ∈ (trimStart text).head?, isBlank c = false := by
  intro c first
  have := List.head?_dropWhile_not isBlank text
  rw [trimStart] at first
  rw [first] at this
  exact this

/-- What is cut off at the end is blank. -/
theorem exists_trimEnd_append (text : List Char) :
    ∃ blanks, text = trimEnd text ++ blanks ∧ blanks.all isBlank := by
  refine ⟨(text.reverse.takeWhile isBlank).reverse, ?_, ?_⟩
  · rw [trimEnd, dropEndWhile, ← List.reverse_append, List.takeWhile_append_dropWhile,
      List.reverse_reverse]
  · rw [List.all_reverse]
    exact List.all_takeWhile

theorem getLast?_trimEnd (text : List Char) : ∀ c ∈ (trimEnd text).getLast?, isBlank c = false := by
  intro c last
  have := List.head?_dropWhile_not isBlank text.reverse
  rw [trimEnd, dropEndWhile, List.getLast?_reverse] at last
  rw [last] at this
  exact this

theorem tight_trim (text : List Char) : Tight (trim text) := by
  constructor
  · intro c first
    obtain ⟨blanks, whole, -⟩ := exists_trimEnd_append (trimStart text)
    apply head?_trimStart text c
    rw [whole]
    rw [trim] at first
    rw [Option.mem_def, List.head?_append, Option.mem_def.mp first, Option.some_or]
  · exact getLast?_trimEnd (trimStart text)

theorem trim_trim (text : List Char) : trim (trim text) = trim text :=
  trim_eq_self (tight_trim text)

/-- A text is trimmed behind a character that is not blank, if it does not start with one. -/
theorem trim_append_cons {left right : List Char} {mark : Char}
    (starts : ∀ c ∈ left.head?, isBlank c = false) (dark : isBlank mark = false) :
    trim (left ++ mark :: right) = left ++ mark :: trimEnd right := by
  have start : trimStart (left ++ mark :: right) = left ++ mark :: right := by
    apply trimStart_eq_self
    intro c first
    cases left with
    | nil =>
      cases first
      exact dark
    | cons d left => exact starts c first
  have stop : (mark :: left.reverse).dropWhile isBlank = mark :: left.reverse :=
    List.dropWhile_cons_of_neg (by simp [dark])
  rw [trim, start, trimEnd, dropEndWhile, trimEnd, dropEndWhile]
  rw [List.reverse_append, List.reverse_cons, List.append_assoc, List.singleton_append,
    List.dropWhile_append]
  split
  · next blank =>
    rw [stop, List.isEmpty_iff.mp blank]
    simp
  · simp

/-- A text is trimmed at its end behind one that does not end with a blank. -/
theorem trimEnd_append {left : List Char} (ends : ∀ c ∈ left.getLast?, isBlank c = false)
    (right : List Char) : trimEnd (left ++ right) = left ++ trimEnd right := by
  have stays : left.reverse.dropWhile isBlank = left.reverse :=
    trimStart_eq_self fun c first => ends c (by simpa using first)
  rw [trimEnd, dropEndWhile, trimEnd, dropEndWhile, List.reverse_append, List.dropWhile_append]
  split
  · next blank =>
    rw [stays, List.isEmpty_iff.mp blank]
    simp
  · simp

theorem trimStart_append_cons (left : List Char) {mark : Char} (dark : isBlank mark = false)
    (right : List Char) : trimStart (left ++ mark :: right) = trimStart left ++ mark :: right := by
  rw [trimStart, List.dropWhile_append]
  split
  · next blank =>
    rw [trimStart, List.isEmpty_iff.mp blank, List.dropWhile_cons_of_neg (by simp [dark])]
    rfl
  · rfl

/-- On both sides of a character that is not blank a text is trimmed at its ends. -/
theorem trim_append_mark (left : List Char) {mark : Char} (dark : isBlank mark = false)
    (right : List Char) : trim (left ++ mark :: right) = trimStart left ++ mark :: trimEnd right := by
  have same : trim (left ++ mark :: right) = trim (trimStart left ++ mark :: right) := by
    rw [trim, trim, trimStart_append_cons left dark, trimStart_append_cons _ dark,
      trimStart_eq_self (head?_trimStart left)]
  rw [same, trim_append_cons (head?_trimStart left) dark]

theorem trim_sublist (text : List Char) : (trim text).Sublist text := by
  have front := (List.dropWhile_suffix isBlank (l := text)).sublist
  have back := (List.dropWhile_suffix isBlank (l := (trimStart text).reverse)).sublist.reverse
  rw [List.reverse_reverse] at back
  exact back.trans front

theorem mem_of_mem_trim {c : Char} {text : List Char} (member : c ∈ trim text) : c ∈ text :=
  (trim_sublist text).subset member

theorem mem_trimStart {c : Char} {text : List Char} (member : c ∈ text)
    (dark : isBlank c = false) : c ∈ trimStart text := by
  rw [← List.takeWhile_append_dropWhile (p := isBlank) (l := text)] at member
  rcases List.mem_append.mp member with blank | kept
  · have := List.all_eq_true.mp List.all_takeWhile c blank
    rw [dark] at this
    exact absurd this Bool.false_ne_true
  · exact kept

/-- Only blanks are trimmed. -/
theorem mem_trim {c : Char} {text : List Char} (member : c ∈ text) (dark : isBlank c = false) :
    c ∈ trim text := by
  have kept := mem_trimStart member dark
  obtain ⟨blanks, whole, blank⟩ := exists_trimEnd_append (trimStart text)
  rw [whole] at kept
  rcases List.mem_append.mp kept with inside | cut
  · exact inside
  · have := List.all_eq_true.mp blank c cut
    rw [dark] at this
    exact absurd this Bool.false_ne_true

theorem breakAt_append_cons {mark : Char} {left : List Char} (absent : mark ∉ left)
    (right : List Char) : breakAt mark (left ++ mark :: right) = some (left, right) := by
  induction left with
  | nil => rw [List.nil_append, breakAt, if_pos rfl]
  | cons c left ih =>
    have other : c ≠ mark := fun same => absent (same ▸ List.mem_cons_self)
    rw [List.cons_append, breakAt, if_neg other,
      ih fun member => absent (List.mem_cons_of_mem _ member)]
    rfl

end MessageTemplate.Text
