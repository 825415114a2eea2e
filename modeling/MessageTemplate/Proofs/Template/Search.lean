import MessageTemplate.Proofs.Template.Reference

/-! # Finding references

The search for references goes through a text from left to right. Behind a text that leads to a
reference it finds the reference as a whole (`references_around`): whatever the search has passed is
passed in the same way when more text follows, because no quote and no bracket is open there. -/

namespace MessageTemplate.Template

open Text

/-! ## Where the search stands -/

/-- A text with nothing open at its end, read from a stance outside of quotes, whose last character
does not join what follows. -/
structure Ready (inside : Bool) (text : List Char) : Prop where
  closed : text.foldl Stance.next ⟨none, inside⟩ = .free
  apart : EndsApart text

theorem Leads.ready {lead : List Char} (leads : Leads lead) : Ready false lead :=
  ⟨leads.closed, leads.apart⟩

theorem joinsWord_of_not_isReferenceChar {c : Char} (other : isReferenceChar c = false) :
    joinsWord c = false := by
  simp only [isReferenceChar, Bool.or_eq_false_iff] at other
  simp [joinsWord, other]

theorem EndsApart.of_suffix {text whole : List Char} (apart : EndsApart whole)
    (suffix : text <:+ whole) : EndsApart text := by
  obtain ⟨before, rfl⟩ := suffix
  intro c last
  obtain ⟨other, stops⟩ := apart c (by rw [List.getLast?_append, Option.mem_def.mp last]; rfl)
  refine ⟨other, fun dot d first => stops dot d ?_⟩
  have full : text ≠ [] := fun empty => by simp [empty] at last
  rw [List.dropLast_append_of_ne_nil full, List.getLast?_append, Option.mem_def.mp first]
  rfl

/-- Characters that leave the stance alone. -/
theorem Stance.next_of_word {c : Char} (plain : isReferenceChar c = true) (inside : Bool) :
    Stance.next ⟨none, inside⟩ c = ⟨none, inside⟩ := by
  have quote := isQuote_of_isReferenceChar plain
  have square := ne_of_isReferenceChar plain '[' (by decide)
  have shut := ne_of_isReferenceChar plain ']' (by decide)
  simp [Stance.next, nextQuote, quote, square, shut]

theorem foldl_stance_of_word {word : List Char} (plain : word.all isReferenceChar = true)
    (inside : Bool) : word.foldl Stance.next ⟨none, inside⟩ = ⟨none, inside⟩ := by
  induction word with
  | nil => rfl
  | cons c rest ih =>
    obtain ⟨first, others⟩ := Bool.and_eq_true_iff.mp plain
    rw [List.foldl_cons, Stance.next_of_word first, ih others]

section Steps

variable {before : Option Char} {c : Char} {rest : List Char}

theorem references_quote (quote : isQuote c = true) :
    references before (c :: rest) = references (some c) ((rest.dropWhile (· ≠ c)).drop 1) := by
  rw [references, if_pos quote]

theorem references_skip (quote : ¬isQuote c = true)
    (passes : (!isNameStart c || before.any joinsWord) = true) :
    references before (c :: rest) = references (some c) rest := by
  rw [references, if_neg quote, if_pos passes]

/-- What the search lists of a path with some text behind it. -/
def listed (path after : List Char) : List String :=
  if isLabelled after || keywords.contains (String.ofList path) then []
  else [Path.normalize (String.ofList path)]

theorem references_path (starts : isNameStart c = true) (fresh : before.any joinsWord = false) :
    references before (c :: rest) = listed (c :: (takePath rest).1) (takePath rest).2 ++
      references (c :: (takePath rest).1).getLast? (takePath rest).2 := by
  have quote := isQuote_of_isReferenceChar (isReferenceChar_of_isNameStart starts)
  rw [references, if_neg (by simp [quote]), if_neg (by simp [starts, fresh]), listed]
  simp only
  split <;> rfl

end Steps

section Passing

variable {next : List Char}

theorem Ready.dropWhile {inside : Bool} {text : List Char} (ready : Ready inside text) :
    Ready inside (text.dropWhile isReferenceChar) := by
  have whole : text.takeWhile isReferenceChar ++ text.dropWhile isReferenceChar = text :=
    List.takeWhile_append_dropWhile
  constructor
  · have closed := ready.closed
    rw [← whole, List.foldl_append, foldl_stance_of_word (List.all_takeWhile)] at closed
    exact closed
  · exact ready.apart.of_suffix (List.dropWhile_suffix _)

end Passing

/-! ## References among other text -/

/-- What is found behind a path does not depend on the path. -/
theorem references_of_startsApart {tail : List Char} (apart : StartsApart tail)
    (before : Option Char) :
    references before tail = references none tail := by
  cases tail with
  | nil => rw [references, references]
  | cons c rest =>
    by_cases quote : isQuote c = true
    · rw [references_quote quote, references_quote quote]
    · have other := isNameStart_of_not_isReferenceChar (apart c rfl).1
      rw [references_skip quote (by simp [other]), references_skip quote (by simp [other])]

/-- A path that is taken as a whole is found as a whole. -/
theorem references_of_takePath {before : Option Char} {c : Char} {path tail : List Char}
    (starts : isNameStart c = true) (fresh : before.any joinsWord = false)
    (apart : StartsApart tail) (taken : takePath (path ++ tail) = (path, tail)) :
    references before (c :: path ++ tail) = listed (c :: path) tail ++ references none tail := by
  rw [List.cons_append, references_path starts fresh, taken, references_of_startsApart apart]

theorem references_text (reference : Reference) {before : Option Char} {tail : List Char}
    (fresh : before.any joinsWord = false) (follows : Follows tail) :
    references before (reference.text ++ tail) = reference.path :: references none tail := by
  have single : listed reference.text tail = [reference.path] :=
    if_neg (by rw [follows.unlabelled, reference.not_mem_keywords]; decide)
  rw [Reference.text] at single
  rw [Reference.text, references_of_takePath reference.starts fresh follows.apart
    (reference.takePath_text follows.apart), single, List.singleton_append]

end MessageTemplate.Template
