import MetricGateway.Binary64.Notation
import MetricGateway.Proofs.Binary64.Rounding

/-!
# The double nearest to a decimal depends on its value alone

`Decimal.magnitude` settles two kinds of decimals without computing a power of ten. Both shortcuts give what rounding
the exact fraction gives (`magnitude_eq`), so shifting digits between significand and exponent changes nothing
(`magnitude_shift`), and the shortest decimal of a double reads back as that double (`magnitude_shortest`).
-/

namespace MetricGateway.Decimal

open Binary64

/-- The number of smallest subnormals in one. -/
def perOne : Nat := Nat.pow 2 1074

-- The powers with a large exponent are stated for a variable first: as literals they would be computed.

theorem two_mul_two_pow_mul (k j : Nat) : 2 * (2 ^ k * Nat.pow 2 j) = 2 ^ (k + (j + 1)) := by
  show 2 * (2 ^ k * 2 ^ j) = 2 ^ (k + (j + 1))
  rw [← Nat.pow_add, ← Nat.add_assoc, Nat.pow_succ, Nat.mul_comm]

theorem ten_pow_eq (k : Nat) : Nat.pow 10 k = Nat.pow 5 k * Nat.pow 2 k := Nat.mul_pow 5 2 k

theorem perOne_pos : 0 < perOne := Nat.two_pow_pos _

/-- The numerator of a decimal in smallest subnormals. -/
def numerator (d : Decimal) : Nat := d.significand * 10 ^ d.exponent.toNat * perOne

/-- The denominator of a decimal. -/
def denominator (d : Decimal) : Nat := 10 ^ (-d.exponent).toNat

theorem denominator_pos (d : Decimal) : 0 < d.denominator := Nat.pow_pos (by decide)

theorem nearestMagnitude_of_log2 {num : Nat} (h : 2099 ≤ num.log2) : nearestMagnitude num 1 = infMagnitude := by
  unfold nearestMagnitude
  dsimp only
  rw [Nat.div_one]
  refine Nat.min_eq_right ?_
  have hs : infMagnitude ≤ (num.log2 - 52) * 0x10000000000000 := by
    rw [infMagnitude_eq]
    omega
  exact Nat.le_trans hs (Nat.le_add_right _ _)

/-- The shortcut for large decimals: `10 ^ 310` exceeds every finite double. -/
theorem nearestMagnitude_of_large {n e : Nat} (hn : n ≠ 0) (he : 310 ≤ e) :
    nearestMagnitude (n * 10 ^ e * perOne) 1 = infMagnitude := by
  have hone : Nat.pow 2 2099 ≤ Nat.pow 10 310 * perOne := by decide +kernel
  have hpow : Nat.pow 10 310 * perOne ≤ n * 10 ^ e * perOne := by
    refine Nat.mul_le_mul_right _ (Nat.le_trans (Nat.pow_le_pow_right (by decide) he) ?_)
    exact Nat.le_mul_of_pos_left _ (Nat.pos_of_ne_zero hn)
  have hpos : 0 < n * 10 ^ e * perOne :=
    Nat.mul_pos (Nat.mul_pos (Nat.pos_of_ne_zero hn) (Nat.pow_pos (by decide))) perOne_pos
  exact nearestMagnitude_of_log2 ((Nat.le_log2 hpos.ne').mpr (Nat.le_trans hone hpow))

/-- A fraction below one half is rounded to zero. -/
theorem nearestMagnitude_of_small {num den : Nat} (h : 2 * num < den) : nearestMagnitude num den = 0 := by
  have hq : num / den = 0 := Nat.div_eq_of_lt (by omega)
  have hr : num % den = num := Nat.mod_eq_of_lt (by omega)
  have hround : roundHalfEven num den = 0 := by simp [roundHalfEven, hq, hr, h]
  simp [nearestMagnitude, hq, hround]

/-- The shortcut for small decimals: ten exceeds the third power of two. -/
theorem two_mul_lt_of_log2 {n e : Nat} (h : n.log2 + 1076 ≤ 3 * (e + 1)) : 2 * (n * perOne) < 10 ^ (e + 1) := by
  have hn : n < 2 ^ (n.log2 + 1) := Nat.lt_log2_self
  calc 2 * (n * perOne) < 2 * (2 ^ (n.log2 + 1) * perOne) :=
        Nat.mul_lt_mul_of_pos_left (Nat.mul_lt_mul_of_pos_right hn perOne_pos) (by decide)
    _ = 2 ^ (n.log2 + 1 + (1074 + 1)) := two_mul_two_pow_mul _ _
    _ ≤ 2 ^ (3 * (e + 1)) := Nat.pow_le_pow_right (by decide) h
    _ = 8 ^ (e + 1) := by rw [Nat.pow_mul]
    _ ≤ 10 ^ (e + 1) := Nat.pow_le_pow_left (by decide) _

/-- The magnitude of a decimal is its fraction, rounded. -/
theorem magnitude_eq (d : Decimal) : d.magnitude = nearestMagnitude d.numerator d.denominator := by
  obtain ⟨n, e⟩ := d
  cases e with
  | ofNat e =>
    have hnum : numerator ⟨n, .ofNat e⟩ = n * 10 ^ e * perOne := rfl
    have hden : denominator ⟨n, .ofNat e⟩ = 1 := by simp [denominator]
    rw [hnum, hden, magnitude]
    dsimp only
    split
    next h => simp [h, nearestMagnitude_of_lt]
    next h =>
      split
      next he => exact (nearestMagnitude_of_large h he).symm
      next => rfl
  | negSucc e =>
    have hnum : numerator ⟨n, .negSucc e⟩ = n * perOne := by simp [numerator]
    have hden : denominator ⟨n, .negSucc e⟩ = 10 ^ (e + 1) := rfl
    rw [hnum, hden, magnitude]
    dsimp only
    split
    next h => exact (nearestMagnitude_of_small (two_mul_lt_of_log2 h)).symm
    next => rfl

/-- Zeros at the end of the significand may be moved to the exponent. -/
theorem magnitude_shift (n j : Nat) (e : Int) : magnitude ⟨n * 10 ^ j, e - j⟩ = magnitude ⟨n, e⟩ := by
  rw [magnitude_eq, magnitude_eq]
  refine nearestMagnitude_congr (denominator_pos _) (denominator_pos _) ?_
  simp only [numerator, denominator]
  have hexp : j + (e - j).toNat + (-e).toNat = e.toNat + (-(e - j)).toNat := by omega
  calc n * 10 ^ j * 10 ^ (e - j).toNat * perOne * 10 ^ (-e).toNat
      = n * 10 ^ (j + (e - j).toNat + (-e).toNat) * perOne := by
        rw [Nat.pow_add, Nat.pow_add]
        ring
    _ = n * 10 ^ e.toNat * perOne * 10 ^ (-(e - j)).toNat := by
        rw [hexp, Nat.pow_add]
        ring

theorem magnitude_of_significand_eq_zero {d : Decimal} (h : d.significand = 0) : d.magnitude = 0 := by
  have hnum : d.numerator = 0 := by simp [numerator, h]
  rw [magnitude_eq, hnum]
  exact nearestMagnitude_of_small (denominator_pos d)

/-! ## The shortest decimal -/

/-- The exact expansion: a smallest subnormal is `5 ^ 1074 / 10 ^ 1074`. -/
theorem magnitude_exact {m : Nat} (h : m < infMagnitude) : (exact m).magnitude = m := by
  have hden : (exact m).denominator = Nat.pow 5 1074 * perOne := ten_pow_eq _
  have hnum : (exact m).numerator = units m * (Nat.pow 5 1074 * perOne) := by
    simp [numerator, exact, Nat.mul_assoc]
  calc
    (exact m).magnitude = nearestMagnitude (units m * (Nat.pow 5 1074 * perOne)) (1 * (Nat.pow 5 1074 * perOne)) := by
        rw [magnitude_eq, hnum, hden, Nat.one_mul]
    _ = nearestMagnitude (units m) 1 := nearestMagnitude_mul_right _ _ (hden ▸ denominator_pos _)
    _ = m := nearestMagnitude_units h

/-- Every candidate is tested, and the exact expansion stands behind the last one. -/
theorem magnitude_shortest {m : Nat} (h : m < infMagnitude) : (shortest m).magnitude = m := by
  unfold shortest
  dsimp only
  cases hc : (List.range 17).findSome? fun n : Nat =>
      (neighbours (units m) (pointOf (units m) - (n + 1))).find? fun d => d.magnitude = m with
  | none => exact magnitude_exact h
  | some d =>
    obtain ⟨n, -, hd⟩ := List.exists_of_findSome?_eq_some hc
    simpa using List.find?_some hd

theorem significand_shortest_ne_zero {m : Nat} (hm : m ≠ 0) (h : m < infMagnitude) : (shortest m).significand ≠ 0 :=
  fun h0 => hm (by rw [← magnitude_shortest h, magnitude_of_significand_eq_zero h0])

end MetricGateway.Decimal
