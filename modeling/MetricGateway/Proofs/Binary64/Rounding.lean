import Mathlib.Tactic.Ring
import MetricGateway.Binary64.Basic

/-!
# Rounding depends on the value alone, and keeps what is a double

- A fraction and the same fraction with a common factor are rounded alike, so equal fractions are
  (`nearestMagnitude_congr`).
- The units of a magnitude are rounded to that magnitude (`nearestMagnitude_units`), and a number of at most 53 bits,
  scaled by a power of two, is not changed by rounding (`exists_units_eq_mul_pow`).
-/

namespace MetricGateway

theorem roundHalfEven_mul_right (num den : Nat) {c : Nat} (hc : 0 < c) :
    roundHalfEven (num * c) (den * c) = roundHalfEven num den := by
  have hlow : 2 * (num % den * c) < den * c ↔ 2 * (num % den) < den := by
    rw [← Nat.mul_assoc, Nat.mul_lt_mul_right hc]
  have hhigh : den * c < 2 * (num % den * c) ↔ den < 2 * (num % den) := by
    rw [← Nat.mul_assoc, Nat.mul_lt_mul_right hc]
  simp only [roundHalfEven, Nat.mul_div_mul_right _ _ hc, Nat.mul_mod_mul_right, hlow, hhigh]

theorem roundHalfEven_mul_self (k : Nat) {den : Nat} (hden : 0 < den) : roundHalfEven (k * den) den = k := by
  simp [roundHalfEven, hden]

theorem roundHalfEven_one (n : Nat) : roundHalfEven n 1 = n := by
  simpa using roundHalfEven_mul_self n Nat.one_pos

namespace Binary64

theorem nearestMagnitude_mul_right (num den : Nat) {c : Nat} (hc : 0 < c) :
    nearestMagnitude (num * c) (den * c) = nearestMagnitude num den := by
  have hmul : ∀ s : Nat, den * c * s = den * s * c := fun s => by ring
  simp only [nearestMagnitude, Nat.mul_div_mul_right _ _ hc, hmul, roundHalfEven_mul_right _ _ hc]

/-- Equal fractions are rounded alike. -/
theorem nearestMagnitude_congr {n d n' d' : Nat} (hd : 0 < d) (hd' : 0 < d') (h : n * d' = n' * d) :
    nearestMagnitude n d = nearestMagnitude n' d' := by
  rw [← nearestMagnitude_mul_right n d hd', ← nearestMagnitude_mul_right n' d' hd, h, Nat.mul_comm d d']

/-! ## Numbers that are doubles -/

theorem infMagnitude_eq : infMagnitude = 2047 * 2 ^ 52 := by decide

/-- The exponent that is taken out of a number of more than 53 bits leaves a fraction of 53 bits. -/
theorem log2_mul_two_pow {k s : Nat} (hlow : 2 ^ 52 ≤ k) (hhigh : k < 2 ^ 53) : (k * 2 ^ s).log2 = 52 + s := by
  have hk : k * 2 ^ s ≠ 0 := Nat.mul_ne_zero (by omega) (Nat.two_pow_pos s).ne'
  refine (Nat.log2_eq_iff hk).mpr ⟨?_, ?_⟩
  · rw [Nat.pow_add]
    exact Nat.mul_le_mul_right _ hlow
  · rw [show 52 + s + 1 = 53 + s by omega, Nat.pow_add]
    exact Nat.mul_lt_mul_of_pos_right hhigh (Nat.two_pow_pos s)

theorem log2_lt_53 {n : Nat} (h : n < 2 ^ 53) : n.log2 ≤ 52 := by
  by_cases hn : n = 0
  · simp [hn]
  · exact Nat.le_of_lt_succ ((Nat.log2_lt hn).mpr h)

/-- Up to 53 bits a number of units is its own magnitude. -/
theorem units_of_lt {m : Nat} (h : m < 2 ^ 53) : units m = m := by
  unfold units
  split
  · rfl
  · rw [show m / 0x10000000000000 - 1 = 0 by omega]
    show (m % 0x10000000000000 + 0x10000000000000) * 1 = m
    omega

/-- Above that, a magnitude is a fraction of 53 bits and an exponent. -/
theorem units_eq_mul_pow {e k : Nat} (hlow : 2 ^ 52 ≤ k) (hhigh : k < 2 ^ 53) :
    units (e * 2 ^ 52 + k) = k * 2 ^ e := by
  unfold units
  rw [if_neg (by omega), show (e * 2 ^ 52 + k) / 0x10000000000000 - 1 = e by omega,
    show (e * 2 ^ 52 + k) % 0x10000000000000 + 0x10000000000000 = k by omega]
  rfl

theorem nearestMagnitude_mul_pow {e k : Nat} (hlow : 2 ^ 52 ≤ k) (hhigh : k < 2 ^ 53) :
    nearestMagnitude (k * 2 ^ e) 1 = min (e * 2 ^ 52 + k) infMagnitude := by
  have hs : (k * 2 ^ e / 1).log2 - 52 = e := by
    rw [Nat.div_one, log2_mul_two_pow hlow hhigh]
    omega
  show min (((k * 2 ^ e / 1).log2 - 52) * 2 ^ 52 +
    roundHalfEven (k * 2 ^ e) (1 * 2 ^ ((k * 2 ^ e / 1).log2 - 52))) infMagnitude = _
  rw [hs, Nat.one_mul, roundHalfEven_mul_self k (Nat.two_pow_pos e)]

theorem nearestMagnitude_of_lt {n : Nat} (h : n < 2 ^ 53) : nearestMagnitude n 1 = n := by
  have hs : (n / 1).log2 - 52 = 0 := by
    rw [Nat.div_one]
    have := log2_lt_53 h
    omega
  show min (((n / 1).log2 - 52) * 2 ^ 52 + roundHalfEven n (1 * 2 ^ ((n / 1).log2 - 52))) infMagnitude = n
  rw [hs, Nat.pow_zero, Nat.one_mul, roundHalfEven_one, infMagnitude_eq]
  omega

/-- A magnitude is either small or a fraction of 53 bits with an exponent. -/
theorem exists_fraction {m : Nat} (h : 2 ^ 53 ≤ m) :
    ∃ e k, m = e * 2 ^ 52 + k ∧ 2 ^ 52 ≤ k ∧ k < 2 ^ 53 := by
  refine ⟨m / 2 ^ 52 - 1, m % 2 ^ 52 + 2 ^ 52, ?_, ?_, ?_⟩ <;> omega

/-- The units of a finite magnitude are rounded to it. -/
theorem nearestMagnitude_units {m : Nat} (h : m < infMagnitude) : nearestMagnitude (units m) 1 = m := by
  by_cases hm : m < 2 ^ 53
  · rw [units_of_lt hm, nearestMagnitude_of_lt hm]
  · obtain ⟨e, k, rfl, hlow, hhigh⟩ := exists_fraction (Nat.le_of_not_lt hm)
    rw [units_eq_mul_pow hlow hhigh, nearestMagnitude_mul_pow hlow hhigh, Nat.min_eq_left h.le]

/-- A whole number below `2 ^ 53` is a double, and so is its multiple by a power of two within the exponents. -/
theorem exists_units_eq_mul_pow {n e : Nat} (h : n < 2 ^ 53) (he : 52 ≤ e ∧ e ≤ 2045) :
    ∃ m, m < infMagnitude ∧ nearestMagnitude (n * 2 ^ e) 1 = m ∧ units m = n * 2 ^ e := by
  by_cases hn : n = 0
  · subst hn
    exact ⟨0, by decide, by simp [nearestMagnitude_of_lt], by simp [units]⟩
  · -- shift the leading bit of `n` to the top of the fraction
    have hlog := log2_lt_53 h
    obtain ⟨hlow, hhigh⟩ := (Nat.log2_eq_iff hn).mp rfl
    have hk : n * 2 ^ (52 - n.log2) * 2 ^ (e - (52 - n.log2)) = n * 2 ^ e := by
      rw [Nat.mul_assoc, ← Nat.pow_add]
      congr 2
      omega
    have hklow : 2 ^ 52 ≤ n * 2 ^ (52 - n.log2) := by
      calc 2 ^ 52 = 2 ^ n.log2 * 2 ^ (52 - n.log2) := by
            rw [← Nat.pow_add]
            congr 1
            omega
        _ ≤ n * 2 ^ (52 - n.log2) := Nat.mul_le_mul_right _ hlow
    have hkhigh : n * 2 ^ (52 - n.log2) < 2 ^ 53 := by
      calc n * 2 ^ (52 - n.log2) < 2 ^ (n.log2 + 1) * 2 ^ (52 - n.log2) :=
            Nat.mul_lt_mul_of_pos_right hhigh (Nat.two_pow_pos _)
        _ = 2 ^ 53 := by
            rw [← Nat.pow_add]
            congr 1
            omega
    have hlt : (e - (52 - n.log2)) * 2 ^ 52 + n * 2 ^ (52 - n.log2) < infMagnitude := by
      rw [infMagnitude_eq]
      omega
    refine ⟨_, hlt, ?_, ?_⟩
    · rw [← hk, nearestMagnitude_mul_pow hklow hkhigh, Nat.min_eq_left hlt.le]
    · rw [units_eq_mul_pow hklow hkhigh, hk]

end Binary64
end MetricGateway
