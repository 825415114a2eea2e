import MessageTemplate.Document.Dynamic
import MessageTemplate.Proofs.Analysis.Untagged
import MessageTemplate.Proofs.Decimal.Layout
import MessageTemplate.Proofs.Json.Lexemes
import MessageTemplate.Proofs.Template.Writing

/-! # Outputs in JSON texts

The text of a value whose strings hold no delimiters, or are outputs, is text with these outputs and no
tags (`lays_write`): the braces of an object are followed by a quote or another brace that closes, and
what a string escapes does not join its braces. The writers put their text in front of a rest, so each
of them is said to lay out some outputs whatever the rest is. -/

namespace MessageTemplate.Json

open Text Template Document

/-! ## Escaping -/

/-- The characters of delimiters. -/
def delimiterChars : List Char := ['\x7b', '\x7d', '%']

/-- A character is written as it is, or behind a backslash without the characters of delimiters. -/
theorem writeChar_cases (c : Char) :
    writeChar c [] = [c] ∨ ∃ tail, writeChar c [] = '\\' :: tail ∧ ∀ d ∈ tail, d ∉ delimiterChars := by
  have digits : ∀ value < 16, hexDigit value ∉ delimiterChars := by decide
  unfold writeChar
  repeat' split
  case isFalse high _ _ _ _ _ =>
    refine .inr ⟨_, rfl, ?_⟩
    have first := digits (c.toNat / 16) (by omega)
    have second := digits (c.toNat % 16) (by omega)
    simp only [List.mem_cons, List.not_mem_nil, or_false, forall_eq_or_imp, forall_eq]
    exact ⟨by simp [delimiterChars], by simp [delimiterChars], by simp [delimiterChars], first,
      second⟩
  all_goals
    first
    | exact .inl rfl
    | exact .inr ⟨_, rfl, by simp [delimiterChars]⟩

/-- Escaping does not bring two characters of delimiters together. -/
theorem parts_escape {first second : Char} (opens : first ∈ delimiterChars)
    (closes : second ∈ delimiterChars) {text : List Char} (parts : Parts first second text) :
    Parts first second (escape text) := by
  have backslash : '\\' ∉ delimiterChars := by decide
  induction text with
  | nil => exact .nil
  | cons c rest ih =>
    have further := ih (List.IsChain.tail parts)
    rw [escape_cons, parts_append]
    rcases writeChar_cases c with same | ⟨tail, given, apart⟩
    · rw [same]
      refine ⟨.singleton c, further, fun d last e next both => ?_⟩
      obtain rfl : c = d := Option.some.inj last
      -- The next character is written as it is, because it is one of a delimiter.
      cases rest with
      | nil => cases next
      | cons f rest =>
        rw [escape_cons] at next
        rcases writeChar_cases f with alike | ⟨tail, given, -⟩
        · rw [alike] at next
          obtain rfl : f = e := Option.some.inj next
          exact (List.isChain_cons_cons.mp parts).1 both
        · rw [given] at next
          obtain rfl : '\\' = e := Option.some.inj next
          exact backslash (both.2 ▸ closes)
    · have absent : first ∉ writeChar c [] := by
        rw [given]
        intro member
        rcases List.mem_cons.mp member with rfl | inside
        · exact backslash opens
        · exact apart first inside opens
      refine ⟨parts_of_not_mem absent, further, fun d last e next both => ?_⟩
      exact absent (both.1 ▸ List.mem_of_getLast? last)

/-! ## Laying out -/

/-- What is written in front of a rest are texts and some outputs. -/
def Lays (write : List Char → List Char) (insides : List (List Char)) : Prop :=
  ∀ ⦃rest : List Char⦄ ⦃others : List (List Char)⦄, Laid rest others →
    Laid (write rest) (insides ++ others)

theorem laid_append_of_not_mem {text rest : List Char} {insides : List (List Char)}
    (absent : '\x7b' ∉ text) (laid : Laid rest insides) : Laid (text ++ rest) insides := by
  induction text with
  | nil => exact laid
  | cons c text ih =>
    obtain ⟨other, others⟩ := List.ne_and_not_mem_of_not_mem_cons absent
    exact .char (openingAt?_eq_none.mpr fun opens => other opens.1.symm) (ih others)

/-- A text in which nothing is opened, not even together with the character behind it. -/
theorem laid_append {text rest : List Char} {c : Char} {insides : List (List Char)}
    (outputs : Parts '\x7b' '\x7b' (text ++ [c])) (tags : Parts '\x7b' '%' (text ++ [c]))
    (laid : Laid (c :: rest) insides) : Laid (text ++ c :: rest) insides := by
  induction text with
  | nil => exact laid
  | cons d text ih =>
    refine .char (openingAt?_eq_none.mpr ?_)
      (ih (List.IsChain.tail outputs) (List.IsChain.tail tags))
    rintro ⟨rfl, e, next, opens⟩
    have follows : e ∈ (text ++ [c]).head? := by
      cases text <;> exact next
    obtain ⟨behind, whole⟩ := List.head?_eq_some_iff.mp follows
    rw [List.cons_append, whole] at outputs tags
    rcases opens with rfl | rfl
    · exact (List.isChain_cons_cons.mp outputs).1 ⟨rfl, rfl⟩
    · exact (List.isChain_cons_cons.mp tags).1 ⟨rfl, rfl⟩

namespace Lays

variable {first second : List Char → List Char} {left right : List (List Char)}

theorem append (lays : Lays first left) (also : Lays second right) :
    Lays (fun rest => first (second rest)) (left ++ right) := by
  intro rest others laid
  rw [List.append_assoc]
  exact lays (also laid)

theorem quiet (text : List Char) (absent : '\x7b' ∉ text) : Lays (text ++ ·) [] :=
  fun _ _ laid => laid_append_of_not_mem absent laid

/-- A character that is no opening brace. -/
theorem cons {c : Char} (other : c ≠ '\x7b') (lays : Lays first left) :
    Lays (fun rest => c :: first rest) left :=
  fun _ _ laid => .char (openingAt?_eq_none.mpr fun opens => other opens.1) (lays laid)

end Lays

/-! ## Numbers and strings -/

theorem lays_writeNumber (value : Number) : Lays (writeNumber value) [] := by
  have digit : '\x7b'.isDigit = false := rfl
  cases value with
  | whole value =>
    have absent : '\x7b' ∉ (toString value).toList := by
      rw [toList_toString, List.mem_append]
      rintro (sign | inside)
      · split at sign <;> simp at sign
      · exact Path.not_mem_toDigits digit _ inside
    exact .quiet _ absent
  | real value =>
    intro rest others laid
    rw [writeNumber]
    split
    · exact Lays.quiet _ (by decide) laid
    · exact Lays.quiet _ (Decimal.not_mem_write _ _ digit (by decide)) laid

/-- A text without delimiters, perhaps made an output. -/
inductive IsWrapped : String → Prop where
  | inert {text : String} : IsInert text → IsWrapped text
  | output {inside : String} : IsInert inside → IsWrapped (outputOf inside)

/-- The inside of a text that is an output, as it is written. -/
def insidesOf (text : String) : List (List Char) :=
  match outputOpening.isPrefixOf? text.toList with
  | some body => [escape body.dropLast.dropLast]
  | none => []

theorem insidesOf_inert {text : String} (inert : IsInert text) : insidesOf text = [] := by
  have absent := (inert .output).1
  rw [insidesOf]
  cases found : outputOpening.isPrefixOf? text.toList with
  | none => rfl
  | some body =>
    refine absurd ?_ absent
    have cut : Delimiter.output.opening.isPrefixOf? text.toList = some body := found
    cases given : text.toList with
    | nil => rw [given] at cut; contradiction
    | cons c rest => rw [given] at cut; simp [occurs, breakOn, cut]

theorem toList_outputOf (inside : String) : (outputOf inside).toList =
    outputOpening ++ (' ' :: (inside.toList ++ [' ']) ++ outputClosing) := by
  simp [outputOf]

theorem insidesOf_output (inside : String) :
    insidesOf (outputOf inside) = [escape (' ' :: (inside.toList ++ [' ']))] := by
  have cut : outputOpening.isPrefixOf? (outputOf inside).toList =
      some (' ' :: (inside.toList ++ [' ']) ++ outputClosing) := by
    rw [toList_outputOf]
    rfl
  simp only [insidesOf, cut]
  exact congrArg (fun inner => [escape inner]) (dropLast_closing .output _)

theorem parts_opening {text : String} (inert : IsInert text) :
    Parts '\x7b' '\x7b' text.toList ∧ Parts '\x7b' '%' text.toList :=
  ⟨parts_iff.mpr (inert .output).1, parts_iff.mpr (inert .tag).1⟩

/-- The quote at the end of a string does not join a delimiter. -/
theorem parts_written {first second : Char} (opens : first ∈ delimiterChars)
    (closes : second ∈ delimiterChars) {text : List Char} (parts : Parts first second text) :
    Parts first second (escape text ++ ['"']) := by
  have quote : '"' ∉ delimiterChars := by decide
  apply parts_snoc (parts_escape opens closes parts)
  rintro rfl
  exact quote closes

theorem lays_writeString {text : String} (wrapped : IsWrapped text) :
    Lays (writeString text) (insidesOf text) := by
  intro rest others laid
  have closed : Laid ('"' :: rest) others :=
    .char (openingAt?_eq_none.mpr fun opens => by cases opens.1) laid
  rw [writeString, writeBody_eq]
  refine .char (openingAt?_eq_none.mpr fun opens => by cases opens.1) ?_
  cases wrapped with
  | inert inert =>
    obtain ⟨outputs, tags⟩ := parts_opening inert
    have opens : '\x7b' ∈ delimiterChars := List.mem_cons_self
    rw [insidesOf_inert inert]
    apply laid_append _ _ closed
    · exact parts_written opens opens outputs
    · exact parts_written opens (by simp [delimiterChars]) tags
  | @output inside inert =>
    have shape : escape (outputOf inside).toList ++ '"' :: rest =
        Delimiter.output.opening ++ escape (' ' :: (inside.toList ++ [' '])) ++
          Delimiter.output.closing ++ '"' :: rest := by
      rw [toList_outputOf, escape_append, escape_append]
      simp only [List.append_assoc]
      rfl
    have parts : Parts '\x7d' '\x7d' (' ' :: (inside.toList ++ [' '])) :=
      List.IsChain.cons (parts_snoc (parts_iff.mpr (inert .output).2) (by decide))
        fun _ _ both => by cases both.1
    have ends : (escape (' ' :: (inside.toList ++ [' ']))).getLast? = some ' ' := by
      rw [← List.cons_append, escape_append]
      exact List.getLast?_concat
    rw [insidesOf_output, shape]
    have closes : '\x7d' ∈ delimiterChars := by simp [delimiterChars]
    refine .output (parts_append.mpr ⟨parts_escape closes closes parts, .singleton _, ?_⟩) closed
    intro c last d _ both
    rw [ends] at last
    cases last
    cases both.1

/-! ## Values -/

mutual

/-- Of a value whose strings hold no delimiters but those of outputs, the outputs are laid out. -/
theorem lays_write : (value : Json) → (∀ text ∈ value.texts, IsWrapped text) →
    Lays (write value) (value.texts.flatMap insidesOf)
  | .null, _ => fun rest others laid => by
    rw [write]
    exact Lays.quiet _ (by decide) laid
  | .bool true, _ => fun rest others laid => by
    rw [write]
    exact Lays.quiet _ (by decide) laid
  | .bool false, _ => fun rest others laid => by
    rw [write]
    exact Lays.quiet _ (by decide) laid
  | .number value, _ => fun rest others laid => by
    rw [write]
    exact lays_writeNumber value laid
  | .string text, wrapped => fun rest others laid => by
    rw [write, texts, List.flatMap_singleton]
    exact lays_writeString (wrapped text (by simp [texts])) laid
  | .array [], _ => fun rest others laid => by
    rw [write]
    exact Lays.quiet ['[', ']'] (by decide) laid
  | .array (item :: items), wrapped => fun rest others laid => by
    simp only [texts, textsOfItems, List.forall_mem_append] at wrapped
    have inner := (lays_write item wrapped.1).append (lays_writeItems items wrapped.2)
    rw [write, texts, textsOfItems, List.flatMap_append]
    exact inner.cons (by decide) laid
  | .object [], _ => fun rest others laid => by
    rw [write]
    have brace : openingAt? ('\x7b' :: '\x7d' :: rest) = none :=
      openingAt?_eq_none.mpr (by simp)
    exact .char brace (.char (openingAt?_eq_none.mpr (by simp)) laid)
  | .object ((key, value) :: members), wrapped => fun rest others laid => by
    simp only [texts, textsOfMembers, List.cons_append, List.forall_mem_cons,
      List.forall_mem_append] at wrapped
    obtain ⟨name, inside, further⟩ := wrapped
    have member := ((lays_write value inside).append (lays_writeMembers members further)).cons
      (c := ':') (by decide)
    have inner := (lays_writeString name).append member
    have brace : openingAt? ('\x7b' :: writeString key (':' :: write value
        (writeMembers members rest))) = none :=
      openingAt?_eq_none.mpr (by simp [writeString])
    rw [write, texts, textsOfMembers, List.cons_append, List.flatMap_cons, List.flatMap_append]
    exact .char brace (inner laid)

theorem lays_writeItems : (items : List Json) → (∀ text ∈ textsOfItems items, IsWrapped text) →
    Lays (writeItems items) ((textsOfItems items).flatMap insidesOf)
  | [], _ => fun rest others laid => by
    rw [writeItems]
    exact Lays.quiet [']'] (by decide) laid
  | item :: items, wrapped => fun rest others laid => by
    simp only [textsOfItems, List.forall_mem_append] at wrapped
    have inner := (lays_write item wrapped.1).append (lays_writeItems items wrapped.2)
    rw [writeItems, textsOfItems, List.flatMap_append]
    exact inner.cons (by decide) laid

theorem lays_writeMembers : (members : List (String × Json)) →
    (∀ text ∈ textsOfMembers members, IsWrapped text) →
    Lays (writeMembers members) ((textsOfMembers members).flatMap insidesOf)
  | [], _ => fun rest others laid => by
    rw [writeMembers]
    exact Lays.quiet ['\x7d'] (by decide) laid
  | (key, value) :: members, wrapped => fun rest others laid => by
    simp only [textsOfMembers, List.cons_append, List.forall_mem_cons,
      List.forall_mem_append] at wrapped
    obtain ⟨name, inside, further⟩ := wrapped
    have member := ((lays_write value inside).append (lays_writeMembers members further)).cons
      (c := ':') (by decide)
    have inner := ((lays_writeString name).append member).cons (c := ',') (by decide)
    rw [writeMembers, textsOfMembers, List.cons_append, List.flatMap_cons, List.flatMap_append]
    exact inner laid

end

end MessageTemplate.Json
