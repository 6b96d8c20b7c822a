/-!
# The protobuf wire format

A message is a sequence of fields. Each starts with a key, a varint that holds the number of the field and its wire
type; what follows is a varint, eight or four bytes, a length and that many bytes, or a group, which is itself a
sequence of fields up to a closing key of the same number. A varint has at most ten bytes and fits 64 bits; a key fits
32 bits, and its number is not zero. Groups are skipped, and may be nested only up to a limit.

`fields?` reads a message and `encode` writes one; `readVarint?` and `encodeVarint` do the same for varints.
-/

namespace MetricGateway.Protobuf

/-! ## Varints -/

/-- Reads a varint of at most `n` bytes, of which only the last may be above one if it is the tenth. -/
def readVarintOf : Nat → List UInt8 → Option (Nat × List UInt8)
  | 0, _ => none
  | _, [] => none
  | n + 1, b :: r =>
    if b < 0x80 then if n = 0 ∧ 1 < b then none else some (b.toNat, r)
    else (readVarintOf n r).map fun (v, r) => (b.toNat % 128 + 128 * v, r)

/-- Reads a varint. -/
def readVarint? (bytes : List UInt8) : Option (Nat × List UInt8) := readVarintOf 10 bytes

/-- Writes a number as a varint, seven bits in a byte, the lowest first. -/
def encodeVarint (n : Nat) : List UInt8 :=
  if n < 128 then [UInt8.ofNat n] else UInt8.ofNat (n % 128 + 128) :: encodeVarint (n / 128)

/-- A varint that was read is followed by fewer bytes. -/
theorem length_readVarintOf {n v : Nat} {bytes r : List UInt8} (h : readVarintOf n bytes = some (v, r)) :
    r.length < bytes.length := by
  induction n generalizing v bytes with
  | zero => simp [readVarintOf] at h
  | succ n ih =>
    cases bytes with
    | nil => simp [readVarintOf] at h
    | cons b bytes =>
      simp only [readVarintOf] at h
      split at h
      · split at h
        · cases h
        · cases h; simp
      · simp only [Option.map_eq_some_iff, Prod.exists, Prod.mk.injEq] at h
        obtain ⟨v', r', h', -, rfl⟩ := h
        exact Nat.lt_succ_of_lt (ih h')

/-- A varint that was read is followed by fewer bytes. -/
theorem length_readVarint? {v : Nat} {bytes r : List UInt8} (h : readVarint? bytes = some (v, r)) :
    r.length < bytes.length := length_readVarintOf h

/-! ## Numbers of fixed width -/

/-- The number that some bytes stand for, the lowest byte first. -/
def littleEndian (bytes : List UInt8) : Nat := bytes.foldr (fun b n => b.toNat + 256 * n) 0

/-- The lowest `k` bytes of a number, the lowest first. -/
def littleEndianBytes : Nat → Nat → List UInt8
  | 0, _ => []
  | k + 1, n => UInt8.ofNat (n % 256) :: littleEndianBytes k (n / 256)

/-- Splits the first `n` bytes off, if there are that many. -/
def takeExactly? (n : Nat) (bytes : List UInt8) : Option (List UInt8 × List UInt8) :=
  if n ≤ bytes.length then some (bytes.take n, bytes.drop n) else none

/-! ## Fields -/

/-- What a field holds. -/
inductive Payload
  | varint (n : Nat)
  | fixed64 (n : Nat)
  | bytes (bs : List UInt8)
  /-- The contents of a group are skipped. -/
  | group
  | fixed32 (n : Nat)
  deriving DecidableEq

/-- A field of a message. -/
structure Field where
  number : Nat
  payload : Payload
  deriving DecidableEq

/-- The key of a field. -/
structure Key where
  number : Nat
  wireType : Nat

/-- Reads a key. -/
def readKey? (bytes : List UInt8) : Option (Key × List UInt8) :=
  match readVarint? bytes with
  | none => none
  | some (k, r) => if k < UInt32.size ∧ k / 8 ≠ 0 then some (⟨k / 8, k % 8⟩, r) else none

/-- Reads a payload that is not a group. -/
def readScalar? (wireType : Nat) (bytes : List UInt8) : Option (Payload × List UInt8) :=
  match wireType with
  | 0 => (readVarint? bytes).map fun (n, r) => (.varint n, r)
  | 1 => (takeExactly? 8 bytes).map fun (bs, r) => (.fixed64 (littleEndian bs), r)
  | 2 =>
    match readVarint? bytes with
    | none => none
    | some (n, r) => (takeExactly? n r).map fun (bs, r) => (.bytes bs, r)
  | 5 => (takeExactly? 4 bytes).map fun (bs, r) => (.fixed32 (littleEndian bs), r)
  | _ => none

/-- A key that was read is followed by fewer bytes. -/
theorem length_readKey? {k : Key} {bytes r : List UInt8} (h : readKey? bytes = some (k, r)) :
    r.length < bytes.length := by
  unfold readKey? at h
  split at h
  · cases h
  next hv =>
    split at h
    · cases h; exact length_readVarint? hv
    · cases h

/-- What follows an exact number of bytes is not longer than the whole. -/
theorem length_takeExactly? {n : Nat} {bytes bs r : List UInt8} (h : takeExactly? n bytes = some (bs, r)) :
    r.length ≤ bytes.length := by
  unfold takeExactly? at h
  split at h
  · cases h; simp
  · cases h

/-- What follows a payload is not longer than the whole. -/
theorem length_readScalar? {t : Nat} {p : Payload} {bytes r : List UInt8} (h : readScalar? t bytes = some (p, r)) :
    r.length ≤ bytes.length := by
  unfold readScalar? at h
  split at h
  · simp only [Option.map_eq_some_iff, Prod.exists, Prod.mk.injEq] at h
    obtain ⟨n, r', h', -, rfl⟩ := h
    exact Nat.le_of_lt (length_readVarint? h')
  · simp only [Option.map_eq_some_iff, Prod.exists, Prod.mk.injEq] at h
    obtain ⟨n, r', h', -, rfl⟩ := h
    exact length_takeExactly? h'
  · split at h
    · cases h
    next hv =>
      simp only [Option.map_eq_some_iff, Prod.exists, Prod.mk.injEq] at h
      obtain ⟨n, r', h', -, rfl⟩ := h
      exact Nat.le_trans (length_takeExactly? h') (Nat.le_of_lt (length_readVarint? hv))
  · simp only [Option.map_eq_some_iff, Prod.exists, Prod.mk.injEq] at h
    obtain ⟨n, r', h', -, rfl⟩ := h
    exact length_takeExactly? h'
  · cases h

/-- Skips the fields of the open groups, the innermost first, and returns what follows the outermost one. A field may
lie in fewer than `limit` groups. -/
def skipGroups? (limit : Nat) : List Nat → List UInt8 → Option (List UInt8)
  | [], bytes => some bytes
  | innermost :: outer, bytes =>
    match _hk : readKey? bytes with
    | none => none
    | some (⟨number, 4⟩, r) => if number = innermost then skipGroups? limit outer r else none
    | some (⟨number, wireType⟩, r) =>
      if limit ≤ outer.length + 1 then none
      else if wireType = 3 then skipGroups? limit (number :: innermost :: outer) r
      else
        match _hs : readScalar? wireType r with
        | none => none
        | some (_, r') => skipGroups? limit (innermost :: outer) r'
termination_by _ bytes => bytes.length
decreasing_by
  · exact length_readKey? _hk
  · exact length_readKey? _hk
  · exact Nat.lt_of_le_of_lt (length_readScalar? _hs) (length_readKey? _hk)

/-- What follows skipped groups is not longer than the whole. -/
theorem length_skipGroups? {limit : Nat} {opened : List Nat} {bytes r : List UInt8}
    (h : skipGroups? limit opened bytes = some r) : r.length ≤ bytes.length := by
  fun_induction skipGroups? limit opened bytes
  all_goals grind [→ length_readKey?, → length_readScalar?]

/-- Reads a field. -/
def readField? (limit : Nat) (bytes : List UInt8) : Option (Field × List UInt8) :=
  match readKey? bytes with
  | none => none
  | some (key, r) =>
    if key.wireType = 3 then (skipGroups? limit [key.number] r).map fun r => (⟨key.number, .group⟩, r)
    else (readScalar? key.wireType r).map fun (p, r) => (⟨key.number, p⟩, r)

/-- A field that was read is followed by fewer bytes. -/
theorem length_readField? {limit : Nat} {f : Field} {bytes r : List UInt8}
    (h : readField? limit bytes = some (f, r)) : r.length < bytes.length := by
  unfold readField? at h
  split at h
  · cases h
  next hk =>
    split at h
    · simp only [Option.map_eq_some_iff, Prod.mk.injEq] at h
      obtain ⟨r', h', -, rfl⟩ := h
      exact Nat.lt_of_le_of_lt (length_skipGroups? h') (length_readKey? hk)
    · simp only [Option.map_eq_some_iff, Prod.exists, Prod.mk.injEq] at h
      obtain ⟨n, r', h', -, rfl⟩ := h
      exact Nat.lt_of_le_of_lt (length_readScalar? h') (length_readKey? hk)

/-- Reads the fields of a message. -/
def fields? (limit : Nat) (bytes : List UInt8) : Option (List Field) :=
  if bytes = [] then some []
  else
    match _h : readField? limit bytes with
    | none => none
    | some (f, r) => (fields? limit r).map (f :: ·)
termination_by bytes.length
decreasing_by exact length_readField? _h

/-! ## Writing -/

/-- The wire type of a payload. -/
def Payload.wireType : Payload → Nat
  | varint _ => 0
  | fixed64 _ => 1
  | bytes _ => 2
  | group => 3
  | fixed32 _ => 5

/-- The bytes of a payload behind the key. A group has none but its closing key. -/
def Payload.encode (number : Nat) : Payload → List UInt8
  | varint n => encodeVarint n
  | fixed64 n => littleEndianBytes 8 n
  | bytes bs => encodeVarint bs.length ++ bs
  | group => encodeVarint (8 * number + 4)
  | fixed32 n => littleEndianBytes 4 n

/-- The bytes of a field. -/
def Field.encode (f : Field) : List UInt8 :=
  encodeVarint (8 * f.number + f.payload.wireType) ++ f.payload.encode f.number

/-- The bytes of a message. -/
def encode (fs : List Field) : List UInt8 := fs.flatMap Field.encode

/-! ## Sequences of messages -/

/-- The messages of a sequence, each behind its length. The last one is missing if the sequence ends inside it. -/
def messages (bytes : List UInt8) : List (Option (List UInt8)) :=
  if bytes = [] then []
  else
    match _h : readVarint? bytes with
    | none => [none]
    | some (n, r) => if n ≤ r.length then some (r.take n) :: messages (r.drop n) else [none]
termination_by bytes.length
decreasing_by exact Nat.lt_of_le_of_lt (by simp) (length_readVarint? _h)

/-- A message behind its length. -/
def delimited (message : List UInt8) : List UInt8 := encodeVarint message.length ++ message

end MetricGateway.Protobuf
