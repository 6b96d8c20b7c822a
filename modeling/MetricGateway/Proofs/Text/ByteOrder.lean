import MetricGateway.Proofs.Text.Utf8

/-!
# The order of bytes

A character with a smaller code point starts with a smaller byte, or has the same first bytes and then a smaller one
(`encodeChar_append_lt`). So texts are ordered as their bytes are (`bytesOf_lt_iff`).
-/

namespace MetricGateway.Utf8

theorem cons_lt {m n : Nat} (hn : n < 0x100) (hle : m ≤ n) {r s : List UInt8} (h : m = n → r < s) :
    UInt8.ofNat m :: r < UInt8.ofNat n :: s := by
  refine List.cons_lt_cons_iff.mpr ((Nat.lt_or_eq_of_le hle).imp (fun hlt => ?_) fun heq => ⟨congrArg _ heq, h heq⟩)
  rw [UInt8.lt_iff_toNat_lt, UInt8.toNat_ofNat_of_lt' (Nat.lt_trans hlt hn), UInt8.toNat_ofNat_of_lt' hn]
  exact hlt

/-- The characters with a smaller code point come first, whatever follows them. -/
theorem encodeChar_append_lt {c d : Char} (h : c < d) (r s : List UInt8) : encodeChar c ++ r < encodeChar d ++ s := by
  have hlt : c.toNat < d.toNat := UInt32.lt_iff_toNat_lt.mp h
  have hd : d.toNat < 0x110000 := by
    have hvalid : d.toNat < 0xd800 ∨ (0xdfff < d.toNat ∧ d.toNat < 0x110000) := d.valid
    omega
  unfold encodeChar
  generalize c.toNat = m, d.toNat = n at *
  dsimp only
  -- a longer code has a greater first byte; in codes of one length the first byte that differs decides
  split
  · split
    · exact cons_lt (by omega) (by omega) fun _ => by omega
    · split
      · exact cons_lt (by omega) (by omega) fun _ => by omega
      · split <;> exact cons_lt (by omega) (by omega) fun _ => by omega
  split
  · rw [if_neg (by omega)]
    split
    · exact cons_lt (by omega) (by omega) fun _ => cons_lt (by omega) (by omega) fun _ => by omega
    · split <;> exact cons_lt (by omega) (by omega) fun _ => by omega
  rw [if_neg (by omega : ¬ n < 0x80), if_neg (by omega : ¬ n < 0x800)]
  split
  · split
    · exact cons_lt (by omega) (by omega) fun _ => cons_lt (by omega) (by omega) fun _ =>
        cons_lt (by omega) (by omega) fun _ => by omega
    · exact cons_lt (by omega) (by omega) fun _ => by omega
  · rw [if_neg (by omega)]
    exact cons_lt (by omega) (by omega) fun _ => cons_lt (by omega) (by omega) fun _ =>
      cons_lt (by omega) (by omega) fun _ => cons_lt (by omega) (by omega) fun _ => by omega

theorem encode_lt {cs ds : List Char} (h : cs < ds) : encode cs < encode ds := by
  induction h with
  | @nil d ds =>
    obtain ⟨b, r, hb⟩ := List.exists_cons_of_ne_nil (encodeChar_ne_nil d)
    rw [encode, encode, List.flatMap_nil, List.flatMap_cons, hb]
    exact .nil
  | rel hlt => exact encodeChar_append_lt hlt _ _
  | cons _ ih => exact List.append_left_lt ih

/-- Texts are ordered as their bytes. -/
theorem bytesOf_lt_iff {s t : String} : bytesOf s < bytesOf t ↔ s < t := by
  refine ⟨fun h => ?_, fun h => encode_lt (String.lt_iff.mp h)⟩
  rcases Std.lt_trichotomy s t with hlt | rfl | hgt
  · exact hlt
  · exact absurd h (Std.lt_irrefl)
  · exact absurd (encode_lt (String.lt_iff.mp hgt)) (List.lt_asymm h)

end MetricGateway.Utf8
