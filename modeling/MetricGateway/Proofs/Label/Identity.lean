import MetricGateway.Label.Fingerprint
import MetricGateway.Proofs.Text.Utf8

/-!
# The bytes of a series

The byte that ends names and values occurs in no UTF-8 text (`separator_not_mem_bytesOf`), so it shows where a text ends
and what follows it (`separated_append_inj`). So the bytes of a series determine the name of its family and its label
set (`identityBytes_inj`).
-/

namespace MetricGateway

namespace Utf8

theorem bytesOf_inj {s t : String} : bytesOf s = bytesOf t ↔ s = t := by
  constructor
  · intro h
    have hread := congrArg decode? h
    rw [bytesOf, bytesOf, decode?_encode, decode?_encode] at hread
    exact String.toList_inj.mp (Option.some.inj hread)
  · rintro rfl
    rfl

/-- The bytes of a character stay below `f8`, where no first byte and no further byte of a character lies. -/
theorem lt_of_mem_encodeChar (c : Char) : ∀ b ∈ encodeChar c, b < 0xf8 := by
  have hvalid : c.toNat < 0xd800 ∨ (0xdfff < c.toNat ∧ c.toNat < 0x110000) := c.valid
  have hbyte : ∀ n : Nat, n < 0xf8 → UInt8.ofNat n < 0xf8 := fun n hn =>
    (UInt8.ofNat_lt_iff (Nat.lt_trans hn (by decide))).mpr hn
  have htail : ∀ n : Nat, UInt8.ofNat (0x80 + n % 0x40) < 0xf8 := fun n => hbyte _ (by omega)
  have hnil : ∀ b ∈ ([] : List UInt8), b < 0xf8 := fun _ hb => absurd hb List.not_mem_nil
  unfold encodeChar
  dsimp only
  split
  · simp only [List.forall_mem_cons]
    exact ⟨hbyte _ (by omega), hnil⟩
  split
  · simp only [List.forall_mem_cons]
    exact ⟨hbyte _ (by omega), htail _, hnil⟩
  split
  · simp only [List.forall_mem_cons]
    exact ⟨hbyte _ (by omega), htail _, htail _, hnil⟩
  · simp only [List.forall_mem_cons]
    exact ⟨hbyte _ (by omega), htail _, htail _, htail _, hnil⟩

end Utf8

namespace LabelSet

theorem separator_not_mem_bytesOf (s : String) : separator ∉ Utf8.bytesOf s := by
  intro h
  obtain ⟨c, -, hc⟩ := List.mem_flatMap.mp h
  exact absurd (Utf8.lt_of_mem_encodeChar c _ hc) (by decide)

/-- A text ends at the first separator. -/
theorem separated_append_inj {s t : String} {r r' : List UInt8} :
    separated s ++ r = separated t ++ r' ↔ s = t ∧ r = r' := by
  constructor
  · intro h
    have hend : ∀ (s : String) r, (separated s ++ r).takeWhile (· != separator) = Utf8.bytesOf s ∧
        (separated s ++ r).dropWhile (· != separator) = separator :: r := by
      intro s r
      have hall : ∀ b ∈ Utf8.bytesOf s, (b != separator) = true := by
        intro b hb
        refine bne_iff_ne.mpr ?_
        rintro rfl
        exact separator_not_mem_bytesOf s hb
      rw [separated, List.append_assoc, List.takeWhile_append_of_pos hall, List.dropWhile_append_of_pos hall]
      simp
    have htake := congrArg (List.takeWhile (· != separator)) h
    have hdrop := congrArg (List.dropWhile (· != separator)) h
    rw [(hend s r).1, (hend t r').1] at htake
    rw [(hend s r).2, (hend t r').2] at hdrop
    exact ⟨Utf8.bytesOf_inj.mp htake, (List.cons.inj hdrop).2⟩
  · rintro ⟨rfl, rfl⟩
    rfl

theorem labelBytes_inj {ls ms : List Label}
    (h : (ls.flatMap fun l => separated l.name ++ separated l.value) =
      ms.flatMap fun l => separated l.name ++ separated l.value) : ls = ms := by
  have hne : ∀ (l : Label) (r : List UInt8), separated l.name ++ separated l.value ++ r ≠ [] := by
    intro l r
    simp [separated]
  induction ls generalizing ms with
  | nil =>
    cases ms with
    | nil => rfl
    | cons m ms => exact absurd h.symm (hne m _)
  | cons l ls ih =>
    cases ms with
    | nil => exact absurd h (hne l _)
    | cons m ms =>
      simp only [List.flatMap_cons, List.append_assoc] at h
      obtain ⟨hname, h⟩ := separated_append_inj.mp h
      obtain ⟨hvalue, h⟩ := separated_append_inj.mp h
      have hlabel : l = m := by
        cases l
        cases m
        cases hname
        cases hvalue
        rfl
      rw [hlabel, ih h]

/-- Different series have different bytes. -/
theorem identityBytes_inj {s t : LabelSet} {f g : String} :
    s.identityBytes f = t.identityBytes g ↔ f = g ∧ s = t := by
  constructor
  · intro h
    unfold identityBytes at h
    rw [List.append_assoc, List.append_assoc] at h
    obtain ⟨-, h⟩ := separated_append_inj.mp h
    obtain ⟨hfamily, h⟩ := separated_append_inj.mp h
    exact ⟨hfamily, LabelSet.ext (labelBytes_inj h)⟩
  · rintro ⟨rfl, rfl⟩
    rfl

end LabelSet
end MetricGateway
