import MetricGateway.Metric
import MetricGateway.Proofs.Binary64.Literal

/-!
# Counts as doubles

A count is written with all its digits, but they are read as a double (`Count.reread`). A count that some double stands
for comes through unchanged (`rounded_iff`), and no other: one below `2 ^ 53` is a double, a greater one is the whole
part of a double only if it is that double, and the largest count stands for everything beyond it
(`rounded_iff_exists`).
-/

namespace MetricGateway

/-- The count that is read where a count was written. -/
def Count.reread (c : Count) : Count := ((c.toNat : Nat) : Binary64).toCount

/-- A count that some double stands for. -/
def Count.Rounded (c : Count) : Prop := ∃ x : Binary64, x.toCount = c

namespace Binary64

-- As in the reader of decimals, `perOne` keeps the large power out of sight.

theorem exists_units_eq_mul_natPow {k j e : Nat} (hk : k < 2 ^ 53) (he : 52 ≤ j + e ∧ j + e ≤ 2045) :
    ∃ m, m < infMagnitude ∧ units m = k * 2 ^ j * Nat.pow 2 e := by
  obtain ⟨m, hm, -, hu⟩ := exists_units_eq_mul_pow hk he
  rw [Nat.pow_add, ← Nat.mul_assoc] at hu
  exact ⟨m, hm, hu⟩

theorem exists_units_eq_mul_perOne {k j : Nat} (hk : k < 2 ^ 53) (hj : j < 64) :
    ∃ m, m < infMagnitude ∧ units m = k * 2 ^ j * Decimal.perOne :=
  exists_units_eq_mul_natPow hk ⟨by omega, by omega⟩

/-- From `2 ^ 53` on a double is a number of 53 bits with zeros behind them: no bit of its fraction lies behind the
point. -/
theorem exists_units_eq_of_le_natPow {m e : Nat} (h : 2 ^ 53 * Nat.pow 2 e ≤ units m) :
    ∃ k j, k < 2 ^ 53 ∧ units m = k * 2 ^ j * Nat.pow 2 e := by
  have hpos : 0 < Nat.pow 2 e := Nat.two_pow_pos e
  by_cases hm : m < 2 ^ 53
  · rw [units_of_lt hm] at h
    have hle : 2 ^ 53 * 1 ≤ 2 ^ 53 * Nat.pow 2 e := Nat.mul_le_mul_left _ hpos
    omega
  · obtain ⟨j, k, rfl, hlow, hhigh⟩ := exists_fraction (Nat.le_of_not_lt hm)
    rw [units_eq_mul_pow hlow hhigh] at h ⊢
    have hlt : 2 ^ 53 * 2 ^ e < 2 ^ 53 * 2 ^ j :=
      Nat.lt_of_le_of_lt h (Nat.mul_lt_mul_of_pos_right hhigh (Nat.two_pow_pos j))
    have hej : e < j := (Nat.pow_lt_pow_iff_right (by decide)).mp (Nat.lt_of_mul_lt_mul_left hlt)
    refine ⟨k, j - e, hhigh, ?_⟩
    show k * 2 ^ j = k * 2 ^ (j - e) * 2 ^ e
    rw [Nat.mul_assoc, ← Nat.pow_add, Nat.sub_add_cancel hej.le]

theorem exists_units_eq_of_le {m : Nat} (h : 2 ^ 53 * Decimal.perOne ≤ units m) :
    ∃ k j, k < 2 ^ 53 ∧ units m = k * 2 ^ j * Decimal.perOne := by
  unfold Decimal.perOne at *
  exact exists_units_eq_of_le_natPow h

/-- The word of a number that is not negative is its magnitude. -/
theorem toNat_bits_ofMagnitude {m : Nat} (h : m < infMagnitude) :
    (ofMagnitude false m).bits.toNat = m ∧ m < 0x8000000000000000 :=
  have hsize : m < 0x8000000000000000 := Nat.lt_trans h (by decide)
  ⟨UInt64.toNat_ofNat_of_lt' (Nat.lt_trans hsize (by decide)), hsize⟩

theorem magnitude_ofMagnitude {m : Nat} (h : m < infMagnitude) : (ofMagnitude false m).magnitude = m := by
  obtain ⟨hbits, hsize⟩ := toNat_bits_ofMagnitude h
  rw [magnitude, hbits, Nat.mod_eq_of_lt hsize]

theorem isNegative_ofMagnitude {m : Nat} (h : m < infMagnitude) : (ofMagnitude false m).isNegative = false := by
  obtain ⟨hbits, hsize⟩ := toNat_bits_ofMagnitude h
  rw [isNegative, hbits, decide_eq_false (Nat.not_le.mpr hsize)]

theorem toCount_ofMagnitude {m : Nat} (h : m < infMagnitude) :
    (ofMagnitude false m).toCount = UInt64.ofNat (min (units m / Decimal.perOne) (UInt64.size - 1)) := by
  have hmag := magnitude_ofMagnitude h
  have hnan : (ofMagnitude false m).isNaN = false := by simpa [isNaN, hmag] using h.le
  have hinf : (ofMagnitude false m).isInfinite = false := by simpa [isInfinite, hmag] using h.ne
  rw [toCount, hnan, isNegative_ofMagnitude h, hinf, hmag]
  rfl

theorem natCast_eq {n m : Nat} (hm : m < infMagnitude) (hu : units m = n * Decimal.perOne) :
    (n : Binary64) = ofMagnitude false m := by
  show ofMagnitude false (nearestMagnitude (n * Decimal.perOne) 1) = ofMagnitude false m
  rw [← hu, nearestMagnitude_units hm]

/-- Doubles stand for the largest count and for counts of at most 53 bits with zeros behind them. -/
theorem toNat_toCount (x : Binary64) :
    x.toCount.toNat = Count.largest ∨ ∃ k j, k < 2 ^ 53 ∧ x.toCount.toNat = k * 2 ^ j := by
  rw [toCount]
  split
  next => exact .inr ⟨0, 0, by decide, by decide⟩
  split
  next => exact .inl (by decide)
  next hnan hinf =>
    show (UInt64.ofNat (min (units x.magnitude / Decimal.perOne) _)).toNat = _ ∨
      ∃ k j, _ ∧ (UInt64.ofNat (min (units x.magnitude / Decimal.perOne) _)).toNat = _
    rw [UInt64.toNat_ofNat_of_lt' (by simp only [UInt64.size]; omega)]
    by_cases hlarge : UInt64.size - 1 ≤ units x.magnitude / Decimal.perOne
    · exact .inl (Nat.min_eq_right hlarge)
    rw [Nat.min_eq_left (Nat.le_of_not_le hlarge)]
    by_cases hsmall : units x.magnitude / Decimal.perOne < 2 ^ 53
    · exact .inr ⟨_, 0, hsmall, by simp⟩
    · have hle : 2 ^ 53 * Decimal.perOne ≤ units x.magnitude :=
        (Nat.le_div_iff_mul_le Decimal.perOne_pos).mp (Nat.le_of_not_lt hsmall)
      obtain ⟨k, j, hk, hu⟩ := exists_units_eq_of_le hle
      exact .inr ⟨k, j, hk, by rw [hu, Nat.mul_div_cancel _ Decimal.perOne_pos]⟩

end Binary64

namespace Count

open Binary64

theorem reread_of_eq_mul_pow {c : Count} {k j : Nat} (hk : k < 2 ^ 53) (hc : c.toNat = k * 2 ^ j) : c.reread = c := by
  have hle : c.toNat ≤ UInt64.size - 1 := Nat.le_sub_one_of_lt c.toNat_lt
  obtain ⟨m, hm, hu⟩ : ∃ m, m < infMagnitude ∧ units m = c.toNat * Decimal.perOne := by
    rw [hc]
    rcases Nat.eq_zero_or_pos k with rfl | hpos
    · simpa using exists_units_eq_mul_perOne hk (j := 0) (by decide)
    · have hpow : 2 ^ j < 2 ^ 64 :=
        Nat.lt_of_le_of_lt (Nat.le_mul_of_pos_left (2 ^ j) hpos) (hc ▸ c.toNat_lt)
      exact exists_units_eq_mul_perOne hk ((Nat.pow_lt_pow_iff_right (by decide)).mp hpow)
  rw [reread, natCast_eq hm hu, toCount_ofMagnitude hm, hu, Nat.mul_div_cancel _ Decimal.perOne_pos,
    Nat.min_eq_left hle, UInt64.ofNat_toNat]

theorem reread_of_eq_largest {c : Count} (h : c.toNat = largest) : c.reread = c := by
  have hc : c = UInt64.ofNat largest := UInt64.toNat_inj.mp h
  subst hc
  decide +kernel

theorem reread_toCount (x : Binary64) : reread x.toCount = x.toCount := by
  rcases toNat_toCount x with h | ⟨k, j, hk, h⟩
  · exact reread_of_eq_largest h
  · exact reread_of_eq_mul_pow hk h

theorem rounded_iff (c : Count) : c.Rounded ↔ c.reread = c := by
  constructor
  · rintro ⟨x, rfl⟩
    exact reread_toCount x
  · intro h
    exact ⟨_, h⟩

/-- A double stands for a count exactly if this is the largest one or has at most 53 bits but for zeros at its end. -/
theorem rounded_iff_exists (c : Count) : c.Rounded ↔ c.toNat = largest ∨ ∃ k j, k < 2 ^ 53 ∧ c.toNat = k * 2 ^ j := by
  constructor
  · rintro ⟨x, rfl⟩
    exact toNat_toCount x
  · rw [rounded_iff]
    rintro (h | ⟨k, j, hk, h⟩)
    · exact reread_of_eq_largest h
    · exact reread_of_eq_mul_pow hk h

instance (c : Count) : Decidable c.Rounded := decidable_of_iff _ (rounded_iff c).symm

end Count
end MetricGateway
