import MetricGateway.Binary64.Decimal
import MetricGateway.Proofs.Text.Numeral
import MetricGateway.Proofs.Text.Words

/-!
# The characters of a number

A text that is read as a number is made of letters, digits, signs and points (`isNumberChar_of_read?`). So it has no
blanks, and where it starts with none of the characters of a name, it starts with a sign or with a point.
-/

namespace MetricGateway

open Text

/-- A letter, a digit, a sign or a point. -/
def isNumberChar (c : Char) : Bool := c.isAlphanum || c == '+' || c == '-' || c == '.'

theorem isBlank_of_isNumberChar {c : Char} (h : isNumberChar c = true) : isBlank c = false := by
  simp only [isNumberChar, Bool.or_eq_true, beq_iff_eq] at h
  rcases h with ((h | rfl) | rfl) | rfl
  · exact isBlank_of_isAlphanum h
  · decide
  · decide
  · decide

theorem isNumberChar_of_isDigit {c : Char} (h : c.isDigit = true) : isNumberChar c = true := by
  simp [isNumberChar, Char.isAlphanum, h]

/-- Only letters become small letters. -/
theorem isAlpha_of_isAlpha_toLower {c : Char} (h : c.toLower.isAlpha = true) : c.isAlpha = true := by
  unfold Char.toLower at h
  split at h
  next hupper =>
    have hrange : c.isUpper = true := decide_eq_true hupper
    show (c.isUpper || c.isLower) = true
    rw [hrange, Bool.true_or]
  next => exact h

/-- A word in any case is made of letters. -/
theorem isAlpha_of_map_toLower {cs word : List Char} (h : cs.map Char.toLower = word)
    (hword : word.all Char.isAlpha = true) : ∀ c ∈ cs, c.isAlpha = true := by
  subst h
  intro c hc
  exact isAlpha_of_isAlpha_toLower (List.all_eq_true.mp hword _ (List.mem_map_of_mem hc))

theorem isNumberChar_of_isAlpha {c : Char} (h : c.isAlpha = true) : isNumberChar c = true := by
  simp [isNumberChar, Char.isAlphanum, h]

theorem isNumberChar_of_readSign {cs : List Char} (h : ∀ c ∈ (readSign cs).2, isNumberChar c = true) :
    ∀ c ∈ cs, isNumberChar c = true := by
  rcases readSign_cases cs with ⟨r, rfl, hr⟩ | ⟨r, rfl, hr⟩ | hr
  · rw [hr] at h
    exact List.forall_mem_cons.mpr ⟨by decide, h⟩
  · rw [hr] at h
    exact List.forall_mem_cons.mpr ⟨by decide, h⟩
  · rwa [hr] at h

namespace Decimal

theorem isNumberChar_of_readExponent? {cs : List Char} {e : Int} (h : readExponent? cs = some e) :
    ∀ c ∈ cs, isNumberChar c = true := by
  unfold readExponent? at h
  split at h
  · simp
  next c r =>
    simp only at h
    split at h
    next hc =>
      obtain ⟨_, hn, -⟩ := Option.map_eq_some_iff.mp h
      obtain ⟨n, hn, -⟩ := Option.bind_eq_some_iff.mp hn
      have hdigits := (natural?_eq_some_iff.mp hn).2.1
      have hr : ∀ c ∈ r, isNumberChar c = true :=
        isNumberChar_of_readSign fun c hc => isNumberChar_of_isDigit (hdigits c hc)
      refine List.forall_mem_cons.mpr ⟨?_, hr⟩
      rcases hc with rfl | rfl <;> decide
    next => cases h

/-- What follows the whole digits is a point and digits, or has no point. -/
theorem readFraction_cases (cs : List Char) :
    cs = '.' :: ((readFraction cs).1 ++ (readFraction cs).2) ∧ Digits (readFraction cs).1 ∨
      (readFraction cs).2 = cs := by
  unfold readFraction
  split
  next t =>
    rw [List.span_eq_takeWhile_dropWhile]
    exact .inl ⟨by rw [List.takeWhile_append_dropWhile], fun c hc => List.mem_takeWhile_imp hc⟩
  next => exact .inr rfl

theorem isNumberChar_of_read? {cs : List Char} {d : Decimal} (h : Decimal.read? cs = some d) :
    ∀ c ∈ cs, isNumberChar c = true := by
  unfold Decimal.read? at h
  rw [List.span_eq_takeWhile_dropWhile] at h
  simp only at h
  have hwhole : ∀ c ∈ cs.takeWhile Char.isDigit, isNumberChar c = true :=
    fun c hc => isNumberChar_of_isDigit (List.mem_takeWhile_imp hc)
  split at h
  · cases h
  · obtain ⟨e, he, -⟩ := Option.map_eq_some_iff.mp h
    have hexponent := isNumberChar_of_readExponent? he
    have hrest : ∀ c ∈ cs.dropWhile Char.isDigit, isNumberChar c = true := by
      rcases readFraction_cases (cs.dropWhile Char.isDigit) with ⟨hr, hfraction⟩ | hr
      · rw [hr]
        refine List.forall_mem_cons.mpr ⟨by decide, List.forall_mem_append.mpr ⟨?_, hexponent⟩⟩
        exact fun c hc => isNumberChar_of_isDigit (hfraction c hc)
      · rwa [hr] at hexponent
    rw [← List.takeWhile_append_dropWhile (p := Char.isDigit) (l := cs)]
    exact List.forall_mem_append.mpr ⟨hwhole, hrest⟩

end Decimal

namespace Binary64

theorem isNumberChar_of_readUnsigned? {negative : Bool} {cs : List Char} {v : Binary64}
    (h : readUnsigned? negative cs = some v) : ∀ c ∈ cs, isNumberChar c = true := by
  unfold readUnsigned? at h
  simp only at h
  split at h
  next hinf =>
    rcases hinf with hinf | hinf
    · exact fun c hc => isNumberChar_of_isAlpha (isAlpha_of_map_toLower hinf (by decide) c hc)
    · exact fun c hc => isNumberChar_of_isAlpha (isAlpha_of_map_toLower hinf (by decide) c hc)
  next =>
    split at h
    next hnan => exact fun c hc => isNumberChar_of_isAlpha (isAlpha_of_map_toLower hnan (by decide) c hc)
    next =>
      obtain ⟨d, hd, -⟩ := Option.map_eq_some_iff.mp h
      exact Decimal.isNumberChar_of_read? hd

/-- A text that is read as a number is made of the characters of numbers. -/
theorem isNumberChar_of_read? {cs : List Char} {v : Binary64} (h : read? cs = some v) :
    ∀ c ∈ cs, isNumberChar c = true := isNumberChar_of_readSign (isNumberChar_of_readUnsigned? h)

/-- A text that is read as a number is one word. -/
theorem isWord_of_read? {cs : List Char} {v : Binary64} (h : read? cs = some v) : IsWord cs := by
  refine ⟨?_, fun c hc => isBlank_of_isNumberChar (isNumberChar_of_read? h c hc)⟩
  rintro rfl
  cases h

end Binary64
end MetricGateway
