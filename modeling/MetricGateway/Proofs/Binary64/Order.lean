import MetricGateway.Binary64.Basic
import MetricGateway.Proofs.Sorted.Ascending

/-!
# The total order of doubles

A double is its sign and its magnitude (`ofMagnitude_magnitude`), and the total order tells all of them apart. Every
number is below infinity or is infinity (`isLE_compare_infinity`). Numbers in ascending numeric order are so in total
order (`compare_of_lt`), and the converse holds unless they are the two zeros (`lt_iff_of_compare_lt`).
-/

namespace MetricGateway

namespace Binary64

theorem ofMagnitude_magnitude (x : Binary64) : ofMagnitude x.isNegative x.magnitude = x := by
  obtain ⟨bits⟩ := x
  have hlt := bits.toNat_lt
  have hsum : bits.toNat % 0x8000000000000000 +
      (if decide (0x8000000000000000 ≤ bits.toNat) = true then 0x8000000000000000 else 0) = bits.toNat := by
    split
    next h =>
      have hle : 0x8000000000000000 ≤ bits.toNat := of_decide_eq_true h
      omega
    next h =>
      have hle : ¬ 0x8000000000000000 ≤ bits.toNat := of_decide_eq_false (Bool.not_eq_true _ ▸ h)
      omega
  rw [ofMagnitude, magnitude, isNegative, hsum, UInt64.ofNat_toNat]

instance : Std.TransOrd Binary64 := inferInstanceAs (Std.TransCmp (compareOn totalKey))

instance : Std.LawfulEqOrd Binary64 where
  eq_of_compare {x y} h := by
    have hkey : x.totalKey = y.totalKey := Std.LawfulEqOrd.eq_of_compare h
    unfold totalKey at hkey
    -- a negative key is that of a negative double
    have hsign : x.isNegative = y.isNegative := by
      cases hx : x.isNegative <;> cases hy : y.isNegative <;> simp [hx, hy] at hkey ⊢ <;> omega
    have hmag : x.magnitude = y.magnitude := by
      rw [hsign] at hkey
      split at hkey <;> omega
    rw [← ofMagnitude_magnitude x, ← ofMagnitude_magnitude y, hsign, hmag]

/-- No number is above infinity. -/
theorem isLE_compare_infinity {x : Binary64} (hx : x.isNaN = false) : (compare x (infinity false)).isLE := by
  have hinf : (infinity false).totalKey = infMagnitude := by decide
  have hmag : x.magnitude ≤ infMagnitude := by simpa [isNaN] using hx
  have hle : x.totalKey ≤ (infinity false).totalKey := by
    rw [hinf, totalKey]
    split <;> omega
  show (compare x.totalKey (infinity false).totalKey).isLE
  exact Std.isLE_compare.mpr hle

/-- The numeric order of numbers is part of the total order. -/
theorem compare_of_lt {x y : Binary64} (h : x < y) : compare x y = .lt := by
  have hkey : x.numericKey < y.numericKey := h.2.2
  refine Int.compare_eq_lt.mpr ?_
  unfold numericKey at hkey
  unfold totalKey
  cases hsx : x.isNegative <;> cases hsy : y.isNegative <;> simp [hsx, hsy] at hkey ⊢ <;> omega

theorem equals_of_lt {x y : Binary64} (h : x < y) : x.equals y = false :=
  decide_eq_false fun he => Int.ne_of_lt h.2.2 he.2.2

theorem equals_iff {x y : Binary64} :
    x.equals y = true ↔ x.isNaN = false ∧ y.isNaN = false ∧ x.numericKey = y.numericKey := decide_eq_true_iff

theorem equals_self {x : Binary64} (hx : x.isNaN = false) : x.equals x = true := equals_iff.mpr ⟨hx, hx, rfl⟩

/-- Equal doubles are equal to the same ones. -/
theorem equals_congr {x y : Binary64} (h : x.equals y = true) (z : Binary64) : z.equals x = z.equals y := by
  obtain ⟨hx, hy, hkey⟩ := equals_iff.mp h
  rw [Bool.eq_iff_iff, equals_iff, equals_iff, hx, hy, hkey]

theorem equals_comm (x y : Binary64) : x.equals y = y.equals x := by
  rw [Bool.eq_iff_iff, equals_iff, equals_iff, and_left_comm, eq_comm (a := x.numericKey)]

theorem numericKey_le_of_isLE {x y : Binary64} (h : (compare x y).isLE) : x.numericKey ≤ y.numericKey := by
  have hkey : x.totalKey ≤ y.totalKey := Std.isLE_compare.mp h
  unfold totalKey at hkey
  unfold numericKey
  cases hsx : x.isNegative <;> cases hsy : y.isNegative <;> simp [hsx, hsy] at hkey ⊢ <;> omega

theorem lt_trans {x y z : Binary64} (hxy : x < y) (hyz : y < z) : x < z :=
  ⟨hxy.1, hyz.2.1, Int.lt_trans hxy.2.2 hyz.2.2⟩

/-- Of two numbers in total order that are not equal, the first is smaller. -/
theorem lt_of_isLE {x y : Binary64} (hx : x.isNaN = false) (hy : y.isNaN = false) (h : (compare x y).isLE)
    (hne : x.equals y = false) : x < y := by
  refine ⟨hx, hy, Int.lt_iff_le_and_ne.mpr ⟨numericKey_le_of_isLE h, fun hkey => ?_⟩⟩
  rw [equals_iff.mpr ⟨hx, hy, hkey⟩] at hne
  cases hne

/-- Infinity is equal to no other double. -/
theorem eq_infinity_of_equals {x : Binary64} (h : x.equals (infinity false) = true) : x = infinity false := by
  have hinf : (infinity false).numericKey = infMagnitude := by decide
  have hkey : x.numericKey = infMagnitude := by
    rw [← hinf]
    exact (of_decide_eq_true h).2.2
  cases hsign : x.isNegative with
  | false =>
    have hmag : x.magnitude = infMagnitude := Int.ofNat_inj.mp (by simpa [numericKey, hsign] using hkey)
    rw [← ofMagnitude_magnitude x, hsign, hmag, infinity]
  | true =>
    simp [numericKey, hsign, infMagnitude] at hkey
    omega

/-! ## Zeros -/

/-- Negative zero. -/
def negZero : Binary64 := ofMagnitude true 0

theorem eq_ofMagnitude_zero_iff {x : Binary64} {negative : Bool} :
    x = ofMagnitude negative 0 ↔ x.isNegative = negative ∧ x.magnitude = 0 := by
  constructor
  · rintro rfl
    cases negative <;> decide
  · rintro ⟨hsign, hmag⟩
    rw [← ofMagnitude_magnitude x, hsign, hmag]

/-- The total order has two places for zero, and otherwise it is the numeric order of numbers. -/
theorem lt_iff_of_compare_lt {x y : Binary64} (hx : x.isNaN = false) (hy : y.isNaN = false) (h : compare x y = .lt) :
    x < y ↔ ¬ (x = negZero ∧ y = zero) := by
  have hlt : x < y ↔ x.numericKey < y.numericKey := ⟨fun h => h.2.2, fun h => ⟨hx, hy, h⟩⟩
  have hkey : x.totalKey < y.totalKey := Int.compare_eq_lt.mp h
  rw [hlt, negZero, zero, eq_ofMagnitude_zero_iff, eq_ofMagnitude_zero_iff, numericKey, numericKey]
  unfold totalKey at hkey
  cases hsx : x.isNegative <;> cases hsy : y.isNegative <;> simp [hsx, hsy] at hkey ⊢ <;> omega

end Binary64
end MetricGateway
