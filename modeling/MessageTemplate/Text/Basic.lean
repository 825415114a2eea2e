import MessageTemplate.Text.Class

/-! # Cutting text

The readers of this library work on lists of characters; a `String` stands wherever a text is
stored or handed over. This module holds the cuts they share: trimming, the first occurrence of
a text, and the measure of a text in bytes. -/

namespace MessageTemplate.Text

/-- The text without blank characters at its start. -/
def trimStart (text : List Char) : List Char :=
  text.dropWhile isBlank

/-- Drops the longest run at the end whose characters all satisfy `p`. -/
def dropEndWhile (p : Char → Bool) (text : List Char) : List Char :=
  (text.reverse.dropWhile p).reverse

/-- The text without blank characters at its end. -/
def trimEnd (text : List Char) : List Char :=
  dropEndWhile isBlank text

/-- The text without blank characters at either end. -/
def trim (text : List Char) : List Char :=
  trimEnd (trimStart text)

/-- `trim` on strings. -/
def trimmed (text : String) : String :=
  String.ofList (trim text.toList)

/-- What stands before and after the first occurrence of a character. -/
def breakAt (mark : Char) : List Char → Option (List Char × List Char)
  | [] => none
  | c :: rest =>
    if c = mark then some ([], rest)
    else (breakAt mark rest).map fun (before, after) => (c :: before, after)

/-- What stands before and after the first occurrence of a text. -/
def breakOn (needle : List Char) : List Char → Option (List Char × List Char)
  | [] => if needle.isEmpty then some ([], []) else none
  | c :: rest =>
    match needle.isPrefixOf? (c :: rest) with
    | some after => some ([], after)
    | none => (breakOn needle rest).map fun (before, after) => (c :: before, after)

/-- Whether a text occurs in another one. -/
def occurs (needle text : List Char) : Bool :=
  (breakOn needle text).isSome

/-- Cutting a text off the start loses only that text. -/
theorem isPrefixOf?_eq_some {needle text rest : List Char}
    (cut : needle.isPrefixOf? text = some rest) : text = needle ++ rest := by
  induction needle generalizing text with
  | nil => exact Option.some.inj cut
  | cons c needle ih =>
    cases text with
    | nil =>
      change none = some rest at cut
      simp at cut
    | cons d text =>
      change (if c == d then needle.isPrefixOf? text else none) = some rest at cut
      split at cut
      · next same => rw [ih cut, eq_of_beq same]; rfl
      · simp at cut

/-- A text is cut off where it stands. -/
theorem isPrefixOf?_append (needle rest : List Char) :
    needle.isPrefixOf? (needle ++ rest) = some rest := by
  induction needle with
  | nil => rfl
  | cons c needle ih =>
    change (if c == c then needle.isPrefixOf? (needle ++ rest) else none) = some rest
    rw [if_pos (beq_self_eq_true c), ih]

/-- Drops a text from the start as often as it stands there. -/
def dropRepeated (needle : List Char) (text : List Char) : List Char :=
  if needle.isEmpty then text
  else
    match _h : needle.isPrefixOf? text with
    | some rest => dropRepeated needle rest
    | none => text
termination_by text.length
decreasing_by
  have := congrArg List.length (isPrefixOf?_eq_some _h)
  have : 0 < needle.length := List.length_pos_iff.mpr fun empty => by simp_all
  simp only [List.length_append] at *
  omega

/-- Drops a text from the end as often as it stands there. -/
def dropRepeatedEnd (needle text : List Char) : List Char :=
  (dropRepeated needle.reverse text.reverse).reverse

/-- The mark that the text of a file may start with. -/
def byteOrderMark : Char := '\uFEFF'

/-- The text of a file without its mark. -/
def withoutMark (text : List Char) : List Char :=
  match text with
  | [] => []
  | c :: rest => if c = byteOrderMark then rest else text

/-- The length of a text in bytes of its UTF-8 form. Positions in a source count these. -/
def width : List Char → Nat
  | [] => 0
  | c :: rest => c.utf8Size + width rest

@[simp] theorem width_nil : width [] = 0 := rfl

@[simp] theorem width_cons (c : Char) (text : List Char) :
    width (c :: text) = c.utf8Size + width text := rfl

@[simp] theorem width_append (left right : List Char) :
    width (left ++ right) = width left + width right := by
  induction left with
  | nil => simp
  | cons c rest ih => simp [ih, Nat.add_assoc]

/-- The measure is the size of the text as a string. -/
theorem utf8ByteSize_ofList (text : List Char) :
    (String.ofList text).utf8ByteSize = width text := by
  induction text with
  | nil => simp
  | cons c rest ih =>
    rw [String.ofList_cons, String.utf8ByteSize_append, String.utf8ByteSize_singleton, ih,
      width_cons]

/-- A break at a character loses only that character. -/
theorem breakAt_eq_some {mark : Char} {text before after : List Char}
    (found : breakAt mark text = some (before, after)) :
    text = before ++ mark :: after ∧ mark ∉ before := by
  induction text generalizing before with
  | nil => simp [breakAt] at found
  | cons c rest ih =>
    rw [breakAt] at found
    split at found
    · next same =>
      obtain ⟨rfl, rfl⟩ := Prod.mk.inj (Option.some.inj found)
      simp [same]
    · next other =>
      obtain ⟨⟨inner, tail⟩, cut, joined⟩ := Option.map_eq_some_iff.mp found
      obtain ⟨rfl, rfl⟩ := Prod.mk.inj joined
      obtain ⟨whole, absent⟩ := ih cut
      exact ⟨by rw [whole]; rfl, by simp [absent, Ne.symm other]⟩

/-- There is no break exactly when the character does not occur. -/
theorem breakAt_eq_none_iff {mark : Char} {text : List Char} :
    breakAt mark text = none ↔ mark ∉ text := by
  induction text with
  | nil => simp [breakAt]
  | cons c rest ih =>
    rw [breakAt]
    by_cases same : c = mark
    · simp [same]
    · simp [same, ih, Ne.symm same]

/-- A break at a text loses only that text. -/
theorem breakOn_eq_some {needle text before after : List Char}
    (found : breakOn needle text = some (before, after)) :
    text = before ++ needle ++ after := by
  induction text generalizing before with
  | nil =>
    rw [breakOn] at found
    split at found
    · next empty =>
      obtain ⟨rfl, rfl⟩ := Prod.mk.inj (Option.some.inj found)
      simp [List.isEmpty_iff.mp empty]
    · simp at found
  | cons c rest ih =>
    rw [breakOn] at found
    split at found
    · next tail cut =>
      obtain ⟨rfl, rfl⟩ := Prod.mk.inj (Option.some.inj found)
      simpa using isPrefixOf?_eq_some cut
    · obtain ⟨⟨inner, tail⟩, cut, joined⟩ := Option.map_eq_some_iff.mp found
      obtain ⟨rfl, rfl⟩ := Prod.mk.inj joined
      rw [ih cut]
      rfl

end MessageTemplate.Text
