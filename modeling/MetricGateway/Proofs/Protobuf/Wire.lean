import Mathlib.Algebra.Group.Nat.Defs
import MetricGateway.Protobuf.Wire

/-!
# Reading back what the wire format holds

Every layer of the wire format reads what it wrote and leaves the bytes behind it alone: varints
(`readVarint?_encodeVarint`), numbers of fixed width, keys, and fields (`readField?_encode`). So the fields of a message
are read back (`fields?_encode`), and so are messages one behind the other (`messages_flatMap_delimited`). A varint
holds 64 bits, which bounds the numbers in a message and its length.
-/

namespace MetricGateway.Protobuf

/-! ## Numbers -/

/-- Seven bits of the number for each byte that may follow, and one bit for the last byte. -/
theorem readVarintOf_encodeVarint {k n : Nat} (h : n < 2 * 128 ^ k) (r : List UInt8) :
    readVarintOf (k + 1) (encodeVarint n ++ r) = some (n, r) := by
  induction k generalizing n with
  | zero =>
    have hn : n < 2 := by simpa using h
    have hto : (UInt8.ofNat n).toNat = n := UInt8.toNat_ofNat_of_lt' (Nat.lt_trans hn (by decide))
    have hlt : UInt8.ofNat n < 0x80 :=
      (UInt8.ofNat_lt_iff (Nat.lt_trans hn (by decide))).mpr (Nat.lt_trans hn (by decide))
    have hle : ¬ 1 < UInt8.ofNat n := by
      rw [UInt8.lt_iff_toNat_lt, hto]
      exact Nat.not_lt.mpr (Nat.le_of_lt_succ hn)
    rw [encodeVarint, if_pos (by omega), List.singleton_append, readVarintOf, if_pos hlt, if_neg (by simp [hle]), hto]
  | succ k ih =>
    rw [encodeVarint]
    split
    next hn =>
      have hto : (UInt8.ofNat n).toNat = n := UInt8.toNat_ofNat_of_lt' (Nat.lt_trans hn (by decide))
      have hlt : UInt8.ofNat n < 0x80 := (UInt8.ofNat_lt_iff (Nat.lt_trans hn (by decide))).mpr hn
      rw [List.singleton_append, readVarintOf, if_pos hlt, if_neg (by omega), hto]
    next hn =>
      have hto : (UInt8.ofNat (n % 128 + 128)).toNat = n % 128 + 128 :=
        UInt8.toNat_ofNat_of_lt' (show n % 128 + 128 < 256 by omega)
      have hge : ¬ UInt8.ofNat (n % 128 + 128) < 0x80 := by
        rw [UInt8.lt_iff_toNat_lt, hto]
        exact Nat.not_lt.mpr (Nat.le_add_left _ _)
      rw [Nat.pow_succ] at h
      have hsum : (n % 128 + 128) % 128 + 128 * (n / 128) = n := by omega
      rw [List.cons_append, readVarintOf, if_neg hge, ih (by omega), hto]
      exact congrArg (fun m => some (m, r)) hsum

theorem readVarint?_encodeVarint {n : Nat} (h : n < UInt64.size) (r : List UInt8) :
    readVarint? (encodeVarint n ++ r) = some (n, r) := readVarintOf_encodeVarint (k := 9) h r

theorem encodeVarint_ne_nil (n : Nat) : encodeVarint n ≠ [] := by
  rw [encodeVarint]
  split <;> exact List.cons_ne_nil _ _

theorem takeExactly?_append (bs r : List UInt8) : takeExactly? bs.length (bs ++ r) = some (bs, r) := by
  simp [takeExactly?]

@[simp] theorem length_littleEndianBytes (k n : Nat) : (littleEndianBytes k n).length = k := by
  induction k generalizing n with
  | zero => rfl
  | succ k ih => rw [littleEndianBytes, List.length_cons, ih]

theorem littleEndian_littleEndianBytes {k n : Nat} (h : n < 256 ^ k) : littleEndian (littleEndianBytes k n) = n := by
  induction k generalizing n with
  | zero =>
    have hn : n = 0 := by simpa using h
    subst hn
    rfl
  | succ k ih =>
    rw [Nat.pow_succ] at h
    have hlow : (UInt8.ofNat (n % 256)).toNat = n % 256 := UInt8.toNat_ofNat_of_lt' (Nat.mod_lt _ (by decide))
    have hhigh : littleEndian (littleEndianBytes k (n / 256)) = n / 256 := ih (by omega)
    show (UInt8.ofNat (n % 256)).toNat + 256 * littleEndian (littleEndianBytes k (n / 256)) = n
    rw [hlow, hhigh]
    omega

/-! ## Fields -/

theorem readKey?_encodeVarint {number wireType : Nat} (hnumber : number ≠ 0) (htype : wireType < 8)
    (h : 8 * number + wireType < UInt32.size) (r : List UInt8) :
    readKey? (encodeVarint (8 * number + wireType) ++ r) = some (⟨number, wireType⟩, r) := by
  have hnum : (8 * number + wireType) / 8 = number := by omega
  have htyp : (8 * number + wireType) % 8 = wireType := by omega
  rw [readKey?, readVarint?_encodeVarint (Nat.lt_trans h (by decide))]
  simp only [hnum, htyp]
  exact if_pos ⟨h, hnumber⟩

/-- The numbers of a payload fit their widths. -/
def Payload.InRange : Payload → Prop
  | varint n => n < UInt64.size
  | fixed64 n => n < UInt64.size
  | fixed32 n => n < UInt32.size
  | bytes _ => True
  | group => True

/-- The key of a field and its numbers fit their widths. -/
def Field.InRange (f : Field) : Prop := f.number ≠ 0 ∧ 8 * f.number + 7 < UInt32.size ∧ f.payload.InRange

theorem Payload.wireType_lt (p : Payload) : p.wireType < 8 := by
  cases p <;> simp [Payload.wireType]

theorem Payload.wireType_eq_three_iff (p : Payload) : p.wireType = 3 ↔ p = .group := by
  cases p <;> simp [Payload.wireType]

theorem readScalar?_encode {p : Payload} {number : Nat} (hp : p.InRange) (hgroup : p ≠ .group)
    (hlen : (p.encode number).length < UInt64.size) (r : List UInt8) :
    readScalar? p.wireType (p.encode number ++ r) = some (p, r) := by
  cases p with
  | varint n => simp [Payload.wireType, Payload.encode, readScalar?, readVarint?_encodeVarint hp]
  | fixed64 n =>
    have htake := takeExactly?_append (littleEndianBytes 8 n) r
    rw [length_littleEndianBytes] at htake
    simp [Payload.wireType, Payload.encode, readScalar?, htake, littleEndian_littleEndianBytes (k := 8) hp]
  | bytes bs =>
    have hbs : bs.length < UInt64.size := Nat.lt_of_le_of_lt (by simp [Payload.encode]) hlen
    simp [Payload.wireType, Payload.encode, readScalar?, readVarint?_encodeVarint hbs, takeExactly?_append]
  | group => exact absurd rfl hgroup
  | fixed32 n =>
    have htake := takeExactly?_append (littleEndianBytes 4 n) r
    rw [length_littleEndianBytes] at htake
    simp [Payload.wireType, Payload.encode, readScalar?, htake, littleEndian_littleEndianBytes (k := 4) hp]

/-- A group that is closed at once has nothing to skip. -/
theorem skipGroups?_close {number : Nat} (hnumber : number ≠ 0) (hkey : 8 * number + 7 < UInt32.size) (limit : Nat)
    (r : List UInt8) : skipGroups? limit [number] (Payload.group.encode number ++ r) = some r := by
  have hread : readKey? (Payload.group.encode number ++ r) = some (⟨number, 4⟩, r) :=
    readKey?_encodeVarint hnumber (by decide) (by omega) r
  rw [skipGroups?]
  split <;> simp_all [skipGroups?]

theorem readField?_encode {f : Field} (hf : f.InRange) (hlen : f.encode.length < UInt64.size) (limit : Nat)
    (r : List UInt8) : readField? limit (f.encode ++ r) = some (f, r) := by
  obtain ⟨number, p⟩ := f
  obtain ⟨hnumber, hkey, hp⟩ := hf
  dsimp only at hnumber hkey hp
  have hlt := p.wireType_lt
  have hread : readKey? (Field.encode ⟨number, p⟩ ++ r) = some (⟨number, p.wireType⟩, p.encode number ++ r) := by
    rw [Field.encode, List.append_assoc]
    exact readKey?_encodeVarint hnumber hlt (by omega) _
  rw [readField?, hread]
  dsimp only
  by_cases hgroup : p = .group
  · subst hgroup
    rw [if_pos ((Payload.wireType_eq_three_iff _).mpr rfl), skipGroups?_close hnumber hkey]
    rfl
  · have hp' : (p.encode number).length < UInt64.size := Nat.lt_of_le_of_lt (by simp [Field.encode]) hlen
    rw [if_neg (mt p.wireType_eq_three_iff.mp hgroup), readScalar?_encode hp hgroup hp']
    rfl

theorem Field.encode_ne_nil (f : Field) : f.encode ≠ [] :=
  List.append_ne_nil_of_left_ne_nil (encodeVarint_ne_nil _) _

/-- A field is not longer than the message that it lies in. -/
theorem length_encode_le {f : Field} {fs : List Field} (hf : f ∈ fs) : f.encode.length ≤ (encode fs).length := by
  obtain ⟨before, behind, rfl⟩ := List.append_of_mem hf
  simp only [encode, List.flatMap_append, List.flatMap_cons, List.length_append]
  omega

theorem fields?_encode {fs : List Field} (hfs : ∀ f ∈ fs, f.InRange) (hlen : (encode fs).length < UInt64.size)
    (limit : Nat) : fields? limit (encode fs) = some fs := by
  induction fs with
  | nil =>
    rw [fields?]
    rfl
  | cons f fs ih =>
    have hne : encode (f :: fs) ≠ [] := List.append_ne_nil_of_left_ne_nil f.encode_ne_nil _
    have hsplit : encode (f :: fs) = f.encode ++ encode fs := List.flatMap_cons
    have hread : readField? limit (encode (f :: fs)) = some (f, encode fs) :=
      hsplit ▸ readField?_encode (hfs f List.mem_cons_self)
        (Nat.lt_of_le_of_lt (length_encode_le List.mem_cons_self) hlen) limit (encode fs)
    have hrest : (encode fs).length < UInt64.size := Nat.lt_of_le_of_lt (by simp [hsplit]) hlen
    rw [fields?, if_neg hne]
    split
    next h =>
      rw [hread] at h
      cases h
    next g r h =>
      rw [hread] at h
      cases h
      rw [ih (fun g hg => hfs g (List.mem_cons_of_mem _ hg)) hrest]
      rfl

/-! ## Messages -/

theorem delimited_ne_nil (m : List UInt8) : delimited m ≠ [] :=
  List.append_ne_nil_of_left_ne_nil (encodeVarint_ne_nil _) _

theorem messages_flatMap_delimited {ms : List (List UInt8)} (h : ∀ m ∈ ms, m.length < UInt64.size) :
    messages (ms.flatMap delimited) = ms.map some := by
  induction ms with
  | nil =>
    rw [messages]
    rfl
  | cons m ms ih =>
    have hne : (m :: ms).flatMap delimited ≠ [] := List.append_ne_nil_of_left_ne_nil (delimited_ne_nil m) _
    have hread : readVarint? ((m :: ms).flatMap delimited) = some (m.length, m ++ ms.flatMap delimited) := by
      rw [List.flatMap_cons, delimited, List.append_assoc]
      exact readVarint?_encodeVarint (h m List.mem_cons_self) _
    rw [messages, if_neg hne]
    split
    next hv =>
      rw [hread] at hv
      cases hv
    next n r hv =>
      rw [hread] at hv
      cases hv
      rw [if_pos (by simp), List.take_left, List.drop_left, ih fun x hx => h x (List.mem_cons_of_mem _ hx)]
      rfl

end MetricGateway.Protobuf
