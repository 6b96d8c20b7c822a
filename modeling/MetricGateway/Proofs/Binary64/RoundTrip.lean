import MetricGateway.Proofs.Binary64.Characters
import MetricGateway.Proofs.Binary64.Literal

/-!
# Printed doubles are read as the same doubles

The notation does not change the value: whatever positive decimal is printed, positionally or with an exponent, its
text is read as the double nearest to it (`read?_decimalText`). A double is printed as a decimal that is nearest to
itself, so it comes back bit by bit, and the text is one word (`text_reads_back`).
-/

namespace MetricGateway.Binary64

/-- **A printed decimal is read as the double nearest to it**, in either notation and with either sign. -/
theorem read?_decimalText {d : Decimal} (h : d.significand ≠ 0) (negative : Bool) :
    read? ((if negative then ['-'] else []) ++ d.text) = some (d.toBinary64 negative) := by
  obtain ⟨d', hliteral, hmagnitude⟩ := Decimal.literal_text h
  rw [read?_of_literal hliteral, Decimal.toBinary64, Decimal.toBinary64, hmagnitude]

/-- **Printed doubles are read as the same doubles.** The text of a double has no blanks and is read as that double,
bit by bit, or as a NaN if the double is one. That does not depend on the decimal that is printed: every positive one
to which the double is nearest, up to its sign, gives a text that is read as the double. -/
theorem text_reads_back (v : Binary64) :
    (∃ w, read? v.text = some w ∧ (w = v ∨ v.isNaN ∧ w.isNaN)) ∧ (∀ c ∈ v.text, Text.isBlank c = false) ∧
      ∀ d : Decimal, d.significand ≠ 0 → d.toBinary64 v.isNegative = v →
        read? ((if v.isNegative then ['-'] else []) ++ d.text) = some v := by
  refine ⟨⟨v.plain, read?_text v, ?_⟩, (isWord_of_read? (read?_text v)).noBlank, fun d hd hv => ?_⟩
  · rw [plain]
    split
    next hnan => exact .inr ⟨hnan, rfl⟩
    next => exact .inl rfl
  · rw [read?_decimalText hd, hv]

/-- The greatest number below zero is printed with a five, and three is read as it as well. -/
theorem text_reads_back_subnormal :
    let v : Binary64 := ⟨0x8000000000000001⟩
    v.text = "-5e-324".toList ∧ read? "-5e-324".toList = some v ∧ read? "-3e-324".toList = some v := by
  intro v
  have htext : v.text = "-5e-324".toList := by decide +kernel
  have hother : (if v.isNegative then ['-'] else []) ++ (⟨3, -324⟩ : Decimal).text = "-3e-324".toList := by
    decide +kernel
  obtain ⟨⟨w, hread, hw⟩, -, hdecimal⟩ := text_reads_back v
  refine ⟨htext, ?_, ?_⟩
  · rcases hw with rfl | ⟨hnan, -⟩
    · rw [← htext, hread]
    · exact absurd hnan (by decide)
  · rw [← hother]
    exact hdecimal ⟨3, -324⟩ (by decide) (by decide +kernel)

end MetricGateway.Binary64
