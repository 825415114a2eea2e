import MessageTemplate.Proofs.Template.Filters
import MessageTemplate.Proofs.Text.Occurs

/-! # References in assignments and loops

An assignment is cut behind its name and the equals sign, the head of a loop at blanks and at the dots
of a range. Neither cuts a reference, if no blank stands in one that a loop runs over. -/

namespace MessageTemplate.Template

open Text

/-! ## Assignments -/

theorem takeCollection_of_ne {c : Char} {text : List Char} (other : c ≠ '(') :
    takeCollection (c :: text) =
      ((c :: text).takeWhile fun c => !isBlank c, (c :: text).dropWhile fun c => !isBlank c) := by
  unfold takeCollection
  split
  · next same => exact absurd (List.cons.inj same).1 other
  · rfl

theorem takeCollection_parentheses {inner : List Char} (absent : ')' ∉ inner) (rest : List Char) :
    takeCollection ('(' :: (inner ++ ')' :: rest)) = ('(' :: (inner ++ [')']), rest) := by
  simp only [takeCollection, breakAt_append_cons absent]
  rfl

/-- Up to a gap a collection is taken as a whole. -/
theorem IsCollection.take {collection gap : List Char} (isCollection : IsCollection collection)
    (isGap : IsGap gap) (full : gap ≠ []) (text : List Char) :
    takeCollection (collection ++ (gap ++ text)) = (collection, gap ++ text) := by
  cases isCollection with
  | @word c rest other plain =>
    have bright : ∀ d ∈ c :: rest, (!isBlank d) = true := fun d member => by simp [plain d member]
    obtain ⟨d, gap, rfl⟩ := List.exists_cons_of_ne_nil full
    have blank := isGap d List.mem_cons_self
    rw [List.cons_append, takeCollection_of_ne other, ← List.cons_append,
      List.takeWhile_append_of_pos bright, List.dropWhile_append_of_pos bright, List.cons_append]
    simp [blank]
  | range absent =>
    rw [List.cons_append, List.append_assoc, List.singleton_append,
      takeCollection_parentheses absent]

theorem IsCollection.starts {collection : List Char} (isCollection : IsCollection collection) :
    collection ≠ [] ∧ ∀ c ∈ collection.head?, isBlank c = false := by
  cases isCollection with
  | word _ plain => exact ⟨by simp, by simpa using (List.forall_mem_cons.mp plain).1⟩
  | range => exact ⟨by simp, by simp; decide⟩

/-! ## References as collections -/

theorem ReferenceStep.solid {step : ReferenceStep} (written : step.isWritten = true)
    (isSolid : step.isSolid = true) : ∀ c ∈ step.text, isBlank c = false := by
  cases step with
  | property word =>
    obtain ⟨-, plain⟩ := Bool.and_eq_true_iff.mp written
    refine List.forall_mem_cons.mpr ⟨by decide, fun c member => ?_⟩
    exact isBlank_of_isReferenceChar (List.all_eq_true.mp plain c member)
  | position digits =>
    obtain ⟨-, plain⟩ := Bool.and_eq_true_iff.mp written
    refine List.forall_mem_cons.mpr ⟨by decide, fun c member => ?_⟩
    rcases List.mem_append.mp member with digit | close
    · exact isBlank_of_isReferenceChar
        (isReferenceChar_of_isDigit (List.all_eq_true.mp plain c digit))
    · rw [List.mem_singleton.mp close]
      decide
  | quoted escaped quote key =>
    obtain ⟨isMark, -⟩ := Bool.and_eq_true_iff.mp written
    refine List.forall_mem_cons.mpr ⟨by decide, fun c member => ?_⟩
    simp only [List.mem_append, List.mem_singleton] at member
    rcases member with ((mark | inside) | mark) | rfl
    · exact (mark_cases isMark mark).2
    · exact isBlank_of_isReferenceChar (List.all_eq_true.mp isSolid c inside)
    · exact (mark_cases isMark mark).2
    · decide

theorem Reference.solid {reference : Reference} (isSolid : reference.isSolid = true) :
    ∀ c ∈ reference.text, isBlank c = false := by
  refine List.forall_mem_cons.mpr
    ⟨isBlank_of_isReferenceChar (isReferenceChar_of_isNameStart reference.starts), ?_⟩
  intro c member
  rcases List.mem_append.mp member with word | steps
  · exact isBlank_of_isReferenceChar (List.all_eq_true.mp reference.plain c word)
  · obtain ⟨step, inside, text⟩ := List.mem_flatMap.mp steps
    exact ReferenceStep.solid (List.all_eq_true.mp reference.written step inside)
      (List.all_eq_true.mp isSolid step inside) c text

/-- A text that passes the search for two dots, whatever follows it. -/
def PassesDots (text : List Char) : Prop :=
  ∀ rest, breakOn ['.', '.'] (text ++ rest) =
    (breakOn ['.', '.'] rest).map fun (before, after) => (text ++ before, after)

namespace PassesDots

variable {left right : List Char}

theorem append (first : PassesDots left) (last : PassesDots right) :
    PassesDots (left ++ right) := by
  intro rest
  rw [List.append_assoc, first, last, Option.map_map]
  congr 1
  funext ⟨before, after⟩
  simp

theorem breakOn (passes : PassesDots left) (rest : List Char) :
    Text.breakOn ['.', '.'] (left ++ '.' :: '.' :: rest) = some (left, rest) := by
  have here : Text.breakOn ['.', '.'] ('.' :: '.' :: rest) = some ([], rest) := rfl
  rw [passes, here]
  simp

end PassesDots

theorem IsGap.absent {gap : List Char} (isGap : IsGap gap) {mark : Char}
    (dark : isBlank mark = false) : mark ∉ gap :=
  fun member => ne_of_isBlank (isGap mark member) mark dark rfl

end MessageTemplate.Template
