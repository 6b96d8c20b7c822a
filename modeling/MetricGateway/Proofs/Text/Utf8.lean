import MetricGateway.Text.Utf8

/-!
# Reading UTF-8 character by character

`Utf8.next?` is the first character of a byte string with the bytes behind it, and a byte string is read by taking one
character after the other (`decode?_cons`). An ASCII byte continues no character, so a text around such a byte is read
on both sides of it (`decode?_append`). The bytes of a character are read as that character (`next?_encodeChar`), so
what was written is read back (`decode?_encode`).
-/

namespace MetricGateway.Utf8

/-- The first character of a byte string and the bytes behind it. -/
def next? : List UInt8 → Option (Char × List UInt8)
  | [] => none
  | a :: r =>
    if a < 0x80 then some (Char.ofNat a.toNat, r)
    else if a < 0xc2 then none
    else if a < 0xe0 then
      match r with
      | b :: r => if isTail b then some (Char.ofNat (a.toNat % 32 * 64 + tailBits b), r) else none
      | _ => none
    else if a < 0xf0 then
      match r with
      | b :: c :: r =>
        if isSecondOfThree a b && isTail c then
          some (Char.ofNat ((a.toNat % 16 * 64 + tailBits b) * 64 + tailBits c), r)
        else none
      | _ => none
    else if a < 0xf5 then
      match r with
      | b :: c :: d :: r =>
        if isSecondOfFour a b && isTail c && isTail d then
          some (Char.ofNat (((a.toNat % 8 * 64 + tailBits b) * 64 + tailBits c) * 64 + tailBits d), r)
        else none
      | _ => none
    else none

/-- The number of bytes of a character with the given first byte. -/
def width (a : UInt8) : Nat := if a < 0x80 then 1 else if a < 0xe0 then 2 else if a < 0xf0 then 3 else 4

theorem length_next? {bs : List UInt8} {e : Char × List UInt8} (h : next? bs = some e) : e.2.length < bs.length := by
  cases bs with
  | nil => cases h
  | cons a r =>
    simp only [next?] at h
    repeat' split at h
    all_goals
      first
        | cases h
          simp only [List.length_cons]
          omega
        | cases h

theorem toOption_map {α β : Type} (f : α → β) (x : Except Fault α) : (f <$> x).toOption = x.toOption.map f := by
  cases x <;> rfl

theorem toOption_error {α : Type} (f : Fault) : (Except.error f : Except Fault α).toOption = none := rfl

theorem toOption_decodeFrom_cons (i : Nat) (a : UInt8) (r : List UInt8) :
    (decodeFrom i (a :: r)).toOption =
      (next? (a :: r)).bind fun e => (decodeFrom (i + width a) e.2).toOption.map (e.1 :: ·) := by
  rw [decodeFrom.eq_def, next?.eq_def]
  dsimp only
  split
  next h₁ => simp [toOption_map, width, h₁]
  next h₁ =>
    split
    next => rfl
    next =>
      split
      next h₂ =>
        cases r with
        | nil => rfl
        | cons b r => by_cases hb : isTail b = true <;> simp [hb, toOption_map, width, h₁, h₂, toOption_error]
      next h₂ =>
        split
        next h₃ =>
          rcases r with _ | ⟨b, _ | ⟨c, r⟩⟩
          · rfl
          · by_cases hb : isSecondOfThree a b = true <;> simp [hb, toOption_error]
          · by_cases hb : isSecondOfThree a b = true <;> by_cases hc : isTail c = true <;>
              simp [hb, hc, toOption_map, width, h₁, h₂, h₃, toOption_error]
        next h₃ =>
          split
          next =>
            rcases r with _ | ⟨b, _ | ⟨c, _ | ⟨d, r⟩⟩⟩
            · rfl
            · by_cases hb : isSecondOfFour a b = true <;> simp [hb, toOption_error]
            · by_cases hb : isSecondOfFour a b = true <;> by_cases hc : isTail c = true <;>
                simp [hb, hc, toOption_error]
            · by_cases hb : isSecondOfFour a b = true <;> by_cases hc : isTail c = true <;>
                by_cases hd : isTail d = true <;>
                simp [hb, hc, hd, toOption_map, width, h₁, h₂, h₃, toOption_error]
          next => rfl

/-- What is read does not depend on where the reading starts to count. -/
theorem toOption_decodeFrom (i j : Nat) (bs : List UInt8) :
    (decodeFrom i bs).toOption = (decodeFrom j bs).toOption := by
  induction hn : bs.length using Nat.strongRecOn generalizing i j bs with
  | ind n ih =>
    cases bs with
    | nil => rfl
    | cons a r =>
      rw [toOption_decodeFrom_cons, toOption_decodeFrom_cons]
      cases he : next? (a :: r) with
      | none => rfl
      | some e =>
        have hlt := length_next? he
        rw [Option.bind_some, Option.bind_some, ih e.2.length (by omega) _ (j + width a) e.2 rfl]

/-- A byte string is read by taking its first character and reading the rest. -/
theorem decode?_cons (a : UInt8) (r : List UInt8) :
    decode? (a :: r) = (next? (a :: r)).bind fun e => (decode? e.2).map (e.1 :: ·) := by
  rw [decode?, decode, toOption_decodeFrom_cons]
  congr 1
  funext e
  rw [toOption_decodeFrom _ 0, decode?, decode]

theorem ne_nil_of_decode? {bs : List UInt8} {cs : List Char} (hbs : bs ≠ []) (h : decode? bs = some cs) : cs ≠ [] := by
  obtain ⟨a, r, rfl⟩ := List.exists_cons_of_ne_nil hbs
  rw [decode?_cons, Option.bind_eq_some_iff] at h
  obtain ⟨e, -, h⟩ := h
  obtain ⟨rest, -, rfl⟩ := Option.map_eq_some_iff.mp h
  simp

/-! ## ASCII bytes -/

section Ascii

variable {b : UInt8} (hb : b < 0x80)
include hb

theorem isTail_ascii : isTail b = false := by
  simp only [isTail, Bool.and_eq_false_iff, decide_eq_false_iff_not]
  exact .inl (UInt8.not_le.mpr hb)

theorem isSecond_ascii (low least high bound a : UInt8) : isSecond low least high bound a b = false := by
  simp [isSecond, isTail_ascii hb]

/-- An ASCII byte behind the first byte of a character does not change what the first character is. -/
theorem next?_append (a : UInt8) (xs ys : List UInt8) :
    next? (a :: xs ++ b :: ys) = (next? (a :: xs)).map fun e => (e.1, e.2 ++ b :: ys) := by
  simp only [List.cons_append, next?]
  split
  next => rfl
  split
  next => rfl
  split
  next =>
    cases xs with
    | nil => simp [isTail_ascii hb]
    | cons x xs => by_cases hx : isTail x = true <;> simp [hx]
  split
  next =>
    rcases xs with _ | ⟨x, _ | ⟨y, xs⟩⟩
    · cases ys <;> simp [isSecondOfThree, isSecond_ascii hb]
    · simp [isTail_ascii hb]
    · by_cases hx : (isSecondOfThree a x && isTail y) = true <;> simp [hx]
  split
  next =>
    rcases xs with _ | ⟨x, _ | ⟨y, _ | ⟨z, xs⟩⟩⟩
    · rcases ys with _ | ⟨_, _ | ⟨_, ys⟩⟩ <;> simp [isSecondOfFour, isSecond_ascii hb]
    · cases ys <;> simp [isTail_ascii hb]
    · simp [isTail_ascii hb]
    · by_cases hx : (isSecondOfFour a x && isTail y && isTail z) = true <;> simp [hx]
  next => rfl

/-- A text around an ASCII byte is read on both sides of it. -/
theorem decode?_append (xs ys : List UInt8) :
    decode? (xs ++ b :: ys) =
      (decode? xs).bind fun s => (decode? ys).map fun t => s ++ Char.ofNat b.toNat :: t := by
  induction hn : xs.length using Nat.strongRecOn generalizing xs with
  | ind n ih =>
    cases xs with
    | nil =>
      have hnext : next? (b :: ys) = some (Char.ofNat b.toNat, ys) := if_pos hb
      rw [List.nil_append, decode?_cons, hnext]
      rfl
    | cons a xs =>
      rw [List.cons_append, decode?_cons, ← List.cons_append, next?_append hb, decode?_cons]
      cases he : next? (a :: xs) with
      | none => rfl
      | some e =>
        have hlt := length_next? he
        rw [Option.map_some, Option.bind_some, Option.bind_some, ih e.2.length (by omega) e.2 rfl]
        cases decode? e.2 with
        | none => rfl
        | some s => cases decode? ys <;> rfl

end Ascii

/-! ## Reading what was written -/

theorem toNat_tail {n : Nat} (h : n < 0x40) : (UInt8.ofNat (0x80 + n)).toNat = 0x80 + n :=
  UInt8.toNat_ofNat_of_lt' (Nat.lt_trans (Nat.add_lt_add_left h 0x80) (by decide))

theorem isTail_tail {n : Nat} (h : n < 0x40) : isTail (UInt8.ofNat (0x80 + n)) = true := by
  rw [isTail, Bool.and_eq_true, decide_eq_true_iff, decide_eq_true_iff, UInt8.le_iff_toNat_le,
    UInt8.lt_iff_toNat_lt, toNat_tail h]
  exact ⟨Nat.le_add_right _ _, Nat.add_lt_add_left h 0x80⟩

theorem tailBits_tail {n : Nat} (h : n < 0x40) : tailBits (UInt8.ofNat (0x80 + n)) = n := by
  rw [tailBits, toNat_tail h]
  omega

/-- The second byte is large behind the smallest first byte, which rules out longer forms, and small behind the one that
surrogates or too large code points have. -/
theorem isSecond_tail {low least high bound : UInt8} {a n : Nat} (ha : a < 0x100) (hn : n < 0x40)
    (hlow : a = low.toNat → least.toNat ≤ 0x80 + n) (hhigh : a = high.toNat → 0x80 + n < bound.toNat) :
    isSecond low least high bound (UInt8.ofNat a) (UInt8.ofNat (0x80 + n)) = true := by
  have he : ∀ b : UInt8, UInt8.ofNat a = b → a = b.toNat := by
    rintro b rfl
    exact (UInt8.toNat_ofNat_of_lt' ha).symm
  simp only [isSecond, isTail_tail hn, Bool.true_and, Bool.and_eq_true, Bool.or_eq_true, bne_iff_ne, ne_eq,
    decide_eq_true_iff, UInt8.le_iff_toNat_le, UInt8.lt_iff_toNat_lt, toNat_tail hn]
  refine ⟨?_, ?_⟩
  · by_cases h : UInt8.ofNat a = low
    · exact .inr (hlow (he _ h))
    · exact .inl h
  · by_cases h : UInt8.ofNat a = high
    · exact .inr (hhigh (he _ h))
    · exact .inl h

/-- The bounds that tell the first bytes of characters apart. -/
theorem ofNat_lt_bounds {a : Nat} (ha : a < 0x100) :
    (UInt8.ofNat a < 0x80 ↔ a < 0x80) ∧ (UInt8.ofNat a < 0xc2 ↔ a < 0xc2) ∧ (UInt8.ofNat a < 0xe0 ↔ a < 0xe0) ∧
      (UInt8.ofNat a < 0xf0 ↔ a < 0xf0) ∧ (UInt8.ofNat a < 0xf5 ↔ a < 0xf5) ∧ (UInt8.ofNat a).toNat = a :=
  ⟨UInt8.ofNat_lt_iff ha, UInt8.ofNat_lt_iff ha, UInt8.ofNat_lt_iff ha, UInt8.ofNat_lt_iff ha, UInt8.ofNat_lt_iff ha,
    UInt8.toNat_ofNat_of_lt' ha⟩

theorem next?_encodeChar (c : Char) (r : List UInt8) : next? (encodeChar c ++ r) = some (c, r) := by
  have hvalid : c.toNat < 0xd800 ∨ (0xdfff < c.toNat ∧ c.toNat < 0x110000) := c.valid
  have hofNat : ∀ {m : Nat}, m = c.toNat → Char.ofNat m = c := fun h => h ▸ Char.ofNat_toNat c
  unfold encodeChar
  generalize c.toNat = n at *
  dsimp only
  have hn : n / 1 % 0x40 < 0x40 := by omega
  have hm : n / 0x40 % 0x40 < 0x40 := by omega
  have hk : n / 0x1000 % 0x40 < 0x40 := by omega
  split
  next h₁ =>
    obtain ⟨h80, -, -, -, -, hto⟩ := ofNat_lt_bounds (a := n) (by omega)
    rw [List.singleton_append, next?.eq_def]
    dsimp only
    rw [if_pos (h80.mpr h₁), hto, hofNat rfl]
  split
  next h₁ h₂ =>
    obtain ⟨h80, hc2, he0, -, -, hto⟩ := ofNat_lt_bounds (a := 0xc0 + n / 0x40) (by omega)
    simp only [List.cons_append, List.nil_append, next?, h80, hc2, he0, hto, isTail_tail hn, tailBits_tail hn]
    rw [if_neg (by omega), if_neg (by omega), if_pos (by omega), if_pos trivial, hofNat]
    omega
  split
  next h₁ h₂ h₃ =>
    obtain ⟨h80, hc2, he0, hf0, -, hto⟩ := ofNat_lt_bounds (a := 0xe0 + n / 0x1000) (by omega)
    have hsecond : isSecondOfThree (UInt8.ofNat (0xe0 + n / 0x1000)) _ = true :=
      isSecond_tail (by omega) hm (by simp only [UInt8.reduceToNat]; omega) (by simp only [UInt8.reduceToNat]; omega)
    simp only [List.cons_append, List.nil_append, next?, h80, hc2, he0, hf0, hto, hsecond, isTail_tail hn,
      tailBits_tail hn, tailBits_tail hm, Bool.and_self]
    rw [if_neg (by omega), if_neg (by omega), if_neg (by omega), if_pos (by omega), if_pos trivial, hofNat]
    omega
  next h₁ h₂ h₃ =>
    obtain ⟨h80, hc2, he0, hf0, hf5, hto⟩ := ofNat_lt_bounds (a := 0xf0 + n / 0x40000) (by omega)
    have hsecond : isSecondOfFour (UInt8.ofNat (0xf0 + n / 0x40000)) _ = true :=
      isSecond_tail (by omega) hk (by simp only [UInt8.reduceToNat]; omega) (by simp only [UInt8.reduceToNat]; omega)
    simp only [List.cons_append, List.nil_append, next?, h80, hc2, he0, hf0, hf5, hto, hsecond, isTail_tail hn,
      tailBits_tail hn, isTail_tail hm, tailBits_tail hm, tailBits_tail hk, Bool.and_self]
    rw [if_neg (by omega), if_neg (by omega), if_neg (by omega), if_neg (by omega), if_pos (by omega), if_pos trivial,
      hofNat]
    omega

theorem encodeChar_ne_nil (c : Char) : encodeChar c ≠ [] := by
  unfold encodeChar
  dsimp only
  repeat' split
  all_goals exact List.cons_ne_nil _ _

theorem decode?_encode (cs : List Char) : decode? (encode cs) = some cs := by
  induction cs with
  | nil => rfl
  | cons c cs ih =>
    obtain ⟨a, r, he⟩ := List.exists_cons_of_ne_nil (encodeChar_ne_nil c)
    have hnext := next?_encodeChar c (encode cs)
    rw [encode, List.flatMap_cons, ← encode, he, List.cons_append, decode?_cons, ← List.cons_append, ← he, hnext,
      Option.bind_some, ih]
    rfl

theorem encode_flatten (texts : List (List Char)) : encode texts.flatten = texts.flatMap encode := by
  rw [encode, ← List.flatMap_id, List.flatMap_assoc]
  rfl

theorem bytesOf_ofList (cs : List Char) : bytesOf (String.ofList cs) = encode cs := by
  rw [bytesOf, String.toList_ofList]

theorem decode_encode (cs : List Char) : decode (encode cs) = .ok cs := by
  have h := decode?_encode cs
  rw [decode?] at h
  cases hd : decode (encode cs) with
  | error f => simp [hd, toOption_error] at h
  | ok t =>
    rw [hd] at h
    cases h
    rfl

end MetricGateway.Utf8
