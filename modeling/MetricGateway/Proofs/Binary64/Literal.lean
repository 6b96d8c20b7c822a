import MetricGateway.Binary64.Basic
import MetricGateway.Binary64.Decimal
import MetricGateway.Binary64.Notation
import MetricGateway.Proofs.Binary64.Decimal
import MetricGateway.Proofs.Binary64.Order
import MetricGateway.Proofs.Text.Numeral

/-!
# Reading back doubles

The text of a double is read as that double (`read?_text`), but for a NaN, of which only that it is one is written
(`plain`). The text of a positive decimal is a literal, positional or scientific, that stands for a decimal with the
same nearest double (`literal_text`).
-/

namespace MetricGateway

open Text

namespace Decimal

/-- A literal as the reader takes it apart, and the decimal that it stands for. -/
inductive Literal : List Char → Decimal → Prop
  | positional {whole fraction : List Char} (hne : whole ≠ []) (hwhole : Digits whole) (hfraction : Digits fraction) :
      Literal (whole ++ pointed fraction) ⟨digitsValue (whole ++ fraction), -fraction.length⟩
  | scientific {whole fraction : List Char} (hne : whole ≠ []) (hwhole : Digits whole) (hfraction : Digits fraction)
      (e : Int) :
      Literal (whole ++ pointed fraction ++ exponentText e) ⟨digitsValue (whole ++ fraction), e - fraction.length⟩

/-! ## Reading literals -/

theorem readExponent?_exponentText (e : Int) : readExponent? (exponentText e) = some e := by
  have hdigits : Digits (List.replicate (2 - (digitsOf e.natAbs).length) '0' ++ digitsOf e.natAbs) := by
    intro c hc
    rcases List.mem_append.mp hc with hc | hc
    · exact digits_replicate_zero _ c hc
    · exact digits_toDigits _ c hc
  have hne : List.replicate (2 - (digitsOf e.natAbs).length) '0' ++ digitsOf e.natAbs ≠ [] :=
    List.append_ne_nil_of_right_ne_nil _ Nat.toDigits_ne_nil
  have hvalue := natural?_eq_some hne hdigits
  rw [digitsValue_zeros_append, digitsOf, digitsValue_toDigits] at hvalue
  unfold exponentText
  generalize hn : e.natAbs = n at hvalue ⊢
  by_cases he : e < 0
  · have hneg : -(n : Int) = e := by omega
    simp [he, readExponent?, readSign, digitsOf, hvalue, hneg]
  · have hpos : (n : Int) = e := by omega
    simp [he, readExponent?, readSign, digitsOf, hvalue, hpos]

/-- What follows the digits is the rest of the literal. -/
theorem readFraction_pointed {fraction tail : List Char} (hfraction : Digits fraction)
    (htail : ∀ c ∈ tail.head?, c.isDigit = false ∧ c ≠ '.') :
    readFraction (pointed fraction ++ tail) = (fraction, tail) := by
  unfold pointed
  split
  next h =>
    subst h
    cases tail with
    | nil => rfl
    | cons c r =>
      have hc := (htail c rfl).2
      unfold readFraction
      split <;> simp_all
  next => exact span_append hfraction fun c hc => (htail c hc).1

theorem read?_append {whole fraction tail : List Char} {e : Int} (hne : whole ≠ []) (hwhole : Digits whole)
    (hfraction : Digits fraction) (htail : ∀ c ∈ tail.head?, c.isDigit = false ∧ c ≠ '.')
    (hexponent : readExponent? tail = some e) :
    read? (whole ++ pointed fraction ++ tail) = some ⟨digitsValue (whole ++ fraction), e - fraction.length⟩ := by
  have hhead : ∀ c ∈ (pointed fraction ++ tail).head?, c.isDigit = false := by
    intro c hc
    unfold pointed at hc
    split at hc
    · exact (htail c hc).1
    · cases hc
      rfl
  rw [List.append_assoc, read?, span_append hwhole hhead]
  dsimp only
  rw [readFraction_pointed hfraction htail]
  dsimp only
  rw [if_neg fun h => hne h.1, hexponent, Option.map_some]

theorem Literal.read? {cs : List Char} {d : Decimal} (h : Literal cs d) : Decimal.read? cs = some d := by
  cases h with
  | positional hne hwhole hfraction =>
    rename_i whole fraction
    have hread : Decimal.read? (whole ++ pointed fraction ++ []) = _ :=
      read?_append hne hwhole hfraction (by simp) rfl
    simpa using hread
  | scientific hne hwhole hfraction e =>
    refine read?_append hne hwhole hfraction (fun c hc => ?_) (readExponent?_exponentText e)
    cases hc
    decide

theorem Literal.exists_digit {cs : List Char} {d : Decimal} (h : Literal cs d) :
    ∃ c r, cs = c :: r ∧ c.isDigit = true := by
  cases h with
  | positional hne hwhole | scientific hne hwhole =>
    obtain ⟨c, r, rfl⟩ := List.exists_cons_of_ne_nil hne
    exact ⟨c, _, rfl, hwhole c List.mem_cons_self⟩

/-! ## The text of a decimal -/

/-- The digits of a number are those without the zeros at the end, and the zeros. -/
theorem exists_zeros (ds : List Char) :
    ∃ n, ds = trimEnd (· = '0') ds ++ List.replicate n '0' := by
  refine ⟨(ds.rtakeWhile (· = '0')).length, ?_⟩
  have hzeros : ds.rtakeWhile (· = '0') = List.replicate (ds.rtakeWhile (· = '0')).length '0' :=
    List.eq_replicate_of_mem fun c hc => by simpa using List.mem_rtakeWhile_imp hc
  rw [← hzeros]
  exact (List.rdropWhile_append_rtakeWhile (p := (· = '0')) (l := ds)).symm

/-- The decimal of digits of which the first one stands for the power `e` of ten. -/
def ofDigits (ds : List Char) (e : Int) : Decimal := ⟨digitsValue ds, e + 1 - ds.length⟩

theorem literal_scientific {ds : List Char} (hds : Digits ds) (hne : ds ≠ []) (e : Int) :
    Literal (scientific ds e) (ofDigits ds e) := by
  obtain ⟨c, r, rfl⟩ := List.exists_cons_of_ne_nil hne
  have hd : ofDigits (c :: r) e = ⟨digitsValue ([c] ++ r), e - r.length⟩ := by
    simp only [ofDigits, List.length_cons, List.singleton_append]
    congr 1
    omega
  rw [hd]
  exact .scientific (by simp) (fun x hx => hds x (by simp_all)) (fun x hx => hds x (List.mem_cons_of_mem _ hx)) e

section Positional

variable {ds : List Char} (hds : Digits ds) (hne : ds ≠ [])
include hds hne

/-- A whole number: the digits and the zeros up to the point. -/
theorem literal_whole {e : Nat} (hlen : ds.length ≤ e + 1) :
    ∃ d, Literal (positional ds (.ofNat e)) d ∧ d.magnitude = (ofDigits ds (.ofNat e)).magnitude := by
  have htext : positional ds (.ofNat e) = ds ++ List.replicate (e + 1 - ds.length) '0' ++ pointed [] := by
    rw [positional, List.take_of_length_le hlen, List.drop_of_length_le hlen]
  have hdigits : Digits (ds ++ List.replicate (e + 1 - ds.length) '0') := fun c hc =>
    (List.mem_append.mp hc).elim (hds c) (digits_replicate_zero _ c)
  have hshift := magnitude_shift (digitsValue ds) (e + 1 - ds.length) ((e + 1 - ds.length : Nat) : Int)
  rw [htext]
  refine ⟨_, .positional (by simp [hne]) hdigits (digits_replicate_zero 0), ?_⟩
  rw [List.append_nil, digitsValue_append_zeros]
  refine Eq.trans ?_ (hshift.trans ?_)
  · simp
  · have hexp : ((e + 1 - ds.length : Nat) : Int) = (Int.ofNat e) + 1 - ds.length := by
      rw [Int.ofNat_eq_natCast]
      omega
    rw [ofDigits, hexp]

/-- The point lies between the digits. -/
theorem literal_pointed {e : Nat} (hlen : e + 1 < ds.length) :
    Literal (positional ds (.ofNat e)) (ofDigits ds (.ofNat e)) := by
  have hzeros : e + 1 - ds.length = 0 := by omega
  have htext : positional ds (.ofNat e) = ds.take (e + 1) ++ pointed (ds.drop (e + 1)) := by
    simp [positional, hzeros]
  have htake : ds.take (e + 1) ≠ [] := by simp [hne]
  have hdrop : Digits (ds.drop (e + 1)) := fun c hc => hds c (List.mem_of_mem_drop hc)
  have hlit := Literal.positional htake (fun c hc => hds c (List.mem_of_mem_take hc)) hdrop
  have hexp : -((ds.drop (e + 1)).length : Int) = (Int.ofNat e) + 1 - ds.length := by
    rw [List.length_drop, Int.ofNat_eq_natCast]
    omega
  rw [List.take_append_drop, hexp] at hlit
  rw [htext]
  exact hlit

/-- A fraction below one: zeros stand behind the point. -/
theorem literal_belowOne (e : Nat) : Literal (positional ds (.negSucc e)) (ofDigits ds (.negSucc e)) := by
  have htext : positional ds (.negSucc e) = List.replicate 1 '0' ++ pointed (List.replicate e '0' ++ ds) := by
    simp [positional, pointed, hne]
  have hdigits : Digits (List.replicate e '0' ++ ds) := fun c hc =>
    (List.mem_append.mp hc).elim (digits_replicate_zero _ c) (hds c)
  have hzero : List.replicate 1 '0' ≠ [] := by simp
  have hlit := Literal.positional hzero (digits_replicate_zero 1) hdigits
  have hexp : -((List.replicate e '0' ++ ds).length : Int) = Int.negSucc e + 1 - ds.length := by
    rw [List.length_append, List.length_replicate]
    omega
  rw [digitsValue_zeros_append, digitsValue_zeros_append, hexp] at hlit
  rw [htext]
  exact hlit

theorem literal_positional (e : Int) :
    ∃ d, Literal (positional ds e) d ∧ d.magnitude = (ofDigits ds e).magnitude := by
  cases e with
  | ofNat e =>
    rcases Nat.lt_or_ge (e + 1) ds.length with hlen | hlen
    · exact ⟨_, literal_pointed hds hne hlen, rfl⟩
    · exact literal_whole hds hne hlen
  | negSucc e => exact ⟨_, literal_belowOne hds hne e, rfl⟩

end Positional

theorem literal_text {d : Decimal} (h : d.significand ≠ 0) : ∃ d', Literal d.text d' ∧ d'.magnitude = d.magnitude := by
  obtain ⟨n, hzeros⟩ := exists_zeros (digitsOf d.significand)
  have hall : Digits (digitsOf d.significand) := digits_toDigits d.significand
  generalize hds : trimEnd (· = '0') (digitsOf d.significand) = ds at hzeros
  have hdigits : Digits ds := fun c hc => hall c (hzeros ▸ List.mem_append_left _ hc)
  have hvalue : digitsValue ds * 10 ^ n = d.significand := by
    rw [← digitsValue_append_zeros, ← hzeros, digitsOf, digitsValue_toDigits]
  have hne : ds ≠ [] := by
    rintro rfl
    exact h (by rw [← hvalue]; exact Nat.zero_mul _)
  have hlen : ((digitsOf d.significand).length : Int) = ds.length + n := by
    rw [hzeros, List.length_append, List.length_replicate]
    omega
  have hmag : (ofDigits ds (d.exponent + (digitsOf d.significand).length - 1)).magnitude = d.magnitude := by
    have hshift := magnitude_shift (digitsValue ds) n (d.exponent + n)
    have hexp : d.exponent + (digitsOf d.significand).length - 1 + 1 - ds.length = d.exponent + n := by omega
    rw [ofDigits, hexp, ← hshift, hvalue]
    congr 1
    simp
  simp only [text, hds]
  split
  next =>
    obtain ⟨d', hlit, hd'⟩ := literal_positional hdigits hne (d.exponent + (digitsOf d.significand).length - 1)
    exact ⟨d', hlit, hd'.trans hmag⟩
  next => exact ⟨_, literal_scientific hdigits hne _, hmag⟩

end Decimal

namespace Binary64

open Decimal (Literal)

/-! ## The text of a double -/

/-- The double with every NaN taken for the one that the word `NaN` stands for. -/
def plain (x : Binary64) : Binary64 := if x.isNaN then nan false else x

theorem toLower_of_isDigit {c : Char} (h : c.isDigit = true) : c.toLower = c := by
  have hval : 48 ≤ c.val ∧ c.val ≤ 57 := by simpa [Char.isDigit] using h
  unfold Char.toLower
  grind

theorem readUnsigned?_of_literal {cs : List Char} {d : Decimal} (h : Literal cs d) (negative : Bool) :
    readUnsigned? negative cs = some (d.toBinary64 negative) := by
  obtain ⟨c, r, hcs, hc⟩ := h.exists_digit
  have hword : ∀ a t, a.isDigit = false → cs.map Char.toLower ≠ a :: t := by
    intro a t ha he
    rw [hcs, List.map_cons, toLower_of_isDigit hc] at he
    cases he
    rw [hc] at ha
    cases ha
  rw [readUnsigned?, if_neg, if_neg, h.read?, Option.map_some]
  · exact hword 'n' _ (by decide)
  · rintro (he | he)
    · exact hword 'i' _ (by decide) he
    · exact hword 'i' _ (by decide) he

theorem read?_of_literal {cs : List Char} {d : Decimal} (h : Literal cs d) (negative : Bool) :
    read? ((if negative then ['-'] else []) ++ cs) = some (d.toBinary64 negative) := by
  obtain ⟨c, r, hcs, hc⟩ := h.exists_digit
  have hread := readUnsigned?_of_literal h negative
  cases negative with
  | true => exact hread
  | false =>
    have hsign : readSign cs = (false, cs) := by
      rw [hcs]
      unfold readSign
      split <;> simp_all
    rw [if_neg Bool.false_ne_true, List.nil_append, read?, hsign]
    exact hread

theorem literal_magnitudeText {m : Nat} (h : m < infMagnitude) :
    ∃ d, Literal (magnitudeText m) d ∧ d.magnitude = m := by
  unfold magnitudeText
  split
  next hm =>
    have hlit : Literal ['0'] _ :=
      .positional (List.cons_ne_nil _ _) (digits_replicate_zero 1) (digits_replicate_zero 0)
    refine ⟨_, hlit, ?_⟩
    rw [hm]
    exact Decimal.magnitude_of_significand_eq_zero rfl
  next hm =>
    obtain ⟨d, hlit, hd⟩ := Decimal.literal_text (Decimal.significand_shortest_ne_zero hm h)
    exact ⟨d, hlit, hd.trans (Decimal.magnitude_shortest h)⟩

theorem magnitude_lt_of_not {x : Binary64} (hnan : ¬ x.isNaN = true) (hinf : ¬ x.isInfinite = true) :
    x.magnitude < infMagnitude := by
  have h₁ : ¬ infMagnitude < x.magnitude := by simpa [isNaN] using hnan
  have h₂ : x.magnitude ≠ infMagnitude := by simpa [isInfinite] using hinf
  omega

/-- **The text of a double is read as that double**, and the text of a NaN as the one NaN. -/
theorem read?_text (x : Binary64) : read? x.text = some x.plain := by
  rw [text, plain]
  split
  next hnan => rfl
  split
  next hinf =>
    have hmag : x.magnitude = infMagnitude := by simpa [isInfinite] using hinf
    have hx : x = infinity x.isNegative := by rw [infinity, ← hmag, ofMagnitude_magnitude]
    cases hneg : x.isNegative with
    | true =>
      rw [hneg] at hx
      rw [hx]
      rfl
    | false =>
      rw [hneg] at hx
      rw [hx]
      rfl
  next hnan hinf =>
    obtain ⟨d, hlit, hd⟩ := literal_magnitudeText (magnitude_lt_of_not hnan hinf)
    rw [read?_of_literal hlit, Decimal.toBinary64, hd, ofMagnitude_magnitude]

/-! ## The text of a whole number -/

theorem literal_digitsOf (n : Nat) : Literal (digitsOf n) ⟨n, 0⟩ := by
  have hlit : Literal (digitsOf n ++ Decimal.pointed []) _ :=
    .positional Nat.toDigits_ne_nil (digits_toDigits n) (digits_replicate_zero 0)
  simpa [Decimal.pointed, digitsOf, digitsValue_toDigits] using hlit

theorem toBinary64_natCast (n : Nat) : Decimal.toBinary64 false ⟨n, 0⟩ = (n : Binary64) := by
  have hnum : Decimal.numerator ⟨n, 0⟩ = n * Nat.pow 2 1074 := by
    show n * 1 * Decimal.perOne = n * Decimal.perOne
    rw [Nat.mul_one]
  rw [Decimal.toBinary64, Decimal.magnitude_eq, hnum]
  rfl

/-- A whole number is read as the double nearest to it. -/
theorem read?_digitsOf (n : Nat) : read? (digitsOf n) = some (n : Binary64) := by
  rw [← toBinary64_natCast]
  exact read?_of_literal (literal_digitsOf n) false

end Binary64
end MetricGateway
