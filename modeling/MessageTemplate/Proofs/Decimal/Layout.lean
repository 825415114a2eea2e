import MessageTemplate.Decimal.Layout
import MessageTemplate.Proofs.Path.Written

/-! # The characters of decimals

The text of a double holds digits, the marks between them, and the letters of the words for what is no
number. -/

namespace MessageTemplate.Decimal

variable {c : Char}

theorem not_mem_positionalText (layout : Layout) (x : Scaled) (digit : c.isDigit = false)
    (other : c ≠ '.') : c ∉ layout.positionalText x := by
  have absent := Path.not_mem_toDigits digit x.digits
  have zero : c ≠ '0' := by rintro rfl; contradiction
  unfold Layout.positionalText
  dsimp only
  repeat' split
  · simp [absent, zero, other]
  · simp [absent, zero]
  · simp only [List.mem_append, List.mem_cons, not_or]
    exact ⟨fun member => absent (List.mem_of_mem_take member), other,
      fun member => absent (List.mem_of_mem_drop member)⟩
  · simp [absent, zero, other]

theorem not_mem_exponentText (x : Scaled) (power : Int) (digit : c.isDigit = false)
    (other : c ∉ ['.', 'e', '-', '+']) : c ∉ exponentText x power := by
  have absent := Path.not_mem_toDigits digit x.digits
  have also := Path.not_mem_toDigits digit power.natAbs
  have zero : c ≠ '0' := by rintro rfl; contradiction
  simp only [List.mem_cons, List.not_mem_nil, or_false, not_or] at other
  obtain ⟨point, mark, minus, plus⟩ := other
  unfold exponentText
  dsimp only
  rw [List.mem_append, List.mem_cons, List.mem_cons]
  rintro (mantissa | rfl | sign | exponent)
  · split at mantissa
    · next first second others digits =>
      rw [digits] at absent
      simp_all
    · exact absent mantissa
  · exact mark rfl
  · split at sign
    · exact minus sign
    · exact plus sign
  · split at exponent
    · simp_all
    · exact also exponent

theorem not_mem_write (layout : Layout) (x : Float) (digit : c.isDigit = false)
    (other : c ∉ "NaN.inf-+e".toList) : c ∉ (layout.write x).toList := by
  have positional := not_mem_positionalText layout (shortest x) digit
  have exponential := fun power => not_mem_exponentText (shortest x) power digit
  have zero : c ≠ '0' := by rintro rfl; contradiction
  simp only [String.reduceToList, List.mem_cons, List.not_mem_nil, or_false, not_or] at *
  unfold Layout.write
  dsimp only
  repeat' split
  all_goals simp_all
end MessageTemplate.Decimal
