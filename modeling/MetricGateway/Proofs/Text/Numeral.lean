import Mathlib.Algebra.Group.Nat.Defs
import Mathlib.Data.List.DropRight
import Mathlib.Data.List.TakeDrop
import MetricGateway.Text.Blank
import MetricGateway.Text.Numeral

/-!
# Digits

The digits of a number are read as that number (`digitsValue_toDigits`), the value of two runs of digits behind each
other follows from their values (`digitsValue_append`), and a run of digits ends where no digit follows
(`span_append`).
-/

namespace MetricGateway.Text

/-- A text of decimal digits. -/
abbrev Digits (ds : List Char) : Prop := ∀ c ∈ ds, c.isDigit = true

theorem digits_toDigits (n : Nat) : Digits (Nat.toDigits 10 n) :=
  fun _ hc => Nat.isDigit_of_mem_toDigits (by decide) (by decide) hc

theorem digits_toString (n : Nat) : Digits (toString n).toList := by
  rw [Nat.toString_eq_ofList_toDigits, String.toList_ofList]
  exact digits_toDigits n

theorem digits_replicate_zero (n : Nat) : Digits (List.replicate n '0') := by
  intro c hc
  rw [(List.mem_replicate.mp hc).2]
  decide

theorem digitsValue_toDigits (n : Nat) : digitsValue (Nat.toDigits 10 n) = n :=
  Nat.ofDigitChars_toDigits (by decide) (by decide)

theorem digitsValue_append (a b : List Char) :
    digitsValue (a ++ b) = digitsValue a * 10 ^ b.length + digitsValue b := by
  rw [digitsValue, Nat.ofDigitChars_append, Nat.ofDigitChars_eq_ofDigitChars_zero, Nat.mul_comm]
  rfl

theorem digitsValue_replicate_zero (n : Nat) : digitsValue (List.replicate n '0') = 0 := by
  induction n with
  | zero => rfl
  | succ n ih =>
    rw [List.replicate_succ', digitsValue_append, ih]
    rfl

theorem digitsValue_append_zeros (a : List Char) (n : Nat) :
    digitsValue (a ++ List.replicate n '0') = digitsValue a * 10 ^ n := by
  rw [digitsValue_append, digitsValue_replicate_zero, List.length_replicate, Nat.add_zero]

theorem digitsValue_zeros_append (n : Nat) (b : List Char) :
    digitsValue (List.replicate n '0' ++ b) = digitsValue b := by
  rw [digitsValue_append, digitsValue_replicate_zero, Nat.zero_mul, Nat.zero_add]

theorem natural?_eq_some {ds : List Char} (hne : ds ≠ []) (h : Digits ds) : natural? ds = some (digitsValue ds) :=
  if_pos ⟨hne, List.all_eq_true.mpr h⟩

theorem natural?_eq_some_iff {ds : List Char} {n : Nat} :
    natural? ds = some n ↔ ds ≠ [] ∧ Digits ds ∧ digitsValue ds = n := by
  constructor
  · intro h
    unfold natural? at h
    split at h
    next hds =>
      cases h
      exact ⟨hds.1, List.all_eq_true.mp hds.2, rfl⟩
    next => cases h
  · rintro ⟨hne, hds, rfl⟩
    exact natural?_eq_some hne hds

/-- A numeral is a sign and what follows it, or has no sign. -/
theorem readSign_cases (cs : List Char) :
    (∃ r, cs = '-' :: r ∧ readSign cs = (true, r)) ∨ (∃ r, cs = '+' :: r ∧ readSign cs = (false, r)) ∨
      readSign cs = (false, cs) := by
  unfold readSign
  split
  next r => exact .inl ⟨r, rfl, rfl⟩
  next r => exact .inr (.inl ⟨r, rfl, rfl⟩)
  next => exact .inr (.inr rfl)

theorem readSign_of_digits {ds : List Char} (h : Digits ds) : readSign ds = (false, ds) := by
  rcases readSign_cases ds with ⟨r, rfl, -⟩ | ⟨r, rfl, -⟩ | hsign
  · exact absurd (h _ List.mem_cons_self) (by decide)
  · exact absurd (h _ List.mem_cons_self) (by decide)
  · exact hsign

/-- A run of digits ends in front of anything else. -/
theorem span_append {ds r : List Char} (h : Digits ds) (hr : ∀ c ∈ r.head?, c.isDigit = false) :
    (ds ++ r).span Char.isDigit = (ds, r) := by
  rw [List.span_eq_takeWhile_dropWhile, List.takeWhile_append_of_pos h, List.dropWhile_append_of_pos h]
  cases r with
  | nil => simp
  | cons c r =>
    have hc : c.isDigit = false := hr c rfl
    simp [hc]

/-- Letters and digits are no blanks. -/
theorem isBlank_of_isAlphanum {c : Char} (h : c.isAlphanum = true) : isBlank c = false := by
  have hrange : 48 ≤ c.toNat ∧ c.toNat ≤ 57 ∨ 65 ≤ c.toNat ∧ c.toNat ≤ 122 := by
    have h : (decide (c.val ≥ 'A'.val ∧ c.val ≤ 'Z'.val) || decide (c.val ≥ 'a'.val) && decide (c.val ≤ 'z'.val) ||
        decide (c.val ≥ '0'.val) && decide (c.val ≤ '9'.val)) = true := h
    simp only [Bool.or_eq_true, Bool.and_eq_true, decide_eq_true_eq, UInt32.le_iff_toNat_le, ge_iff_le] at h
    rcases h with (h | h) | h
    · exact .inr ⟨h.1, Nat.le_trans h.2 (by decide)⟩
    · exact .inr ⟨Nat.le_trans (by decide) h.1, h.2⟩
    · exact .inl h
  simp [isBlank, inRanges, blankRanges]
  omega

theorem isBlank_of_isDigit {c : Char} (h : c.isDigit = true) : isBlank c = false :=
  isBlank_of_isAlphanum (by simp [Char.isAlphanum, h])

end MetricGateway.Text
