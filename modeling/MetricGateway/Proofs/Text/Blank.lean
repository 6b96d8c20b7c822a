import Mathlib.Data.List.DropRight
import MetricGateway.Text.Blank

/-!
# Trimming and cutting

Whether a text has something to trim at its end depends on its last character alone (`trimEnd_append_eq_self_iff`), and
what stands behind the start of a trimmed text is trimmed as well (`trimEnd_eq_self_of_suffix`). A text that is trimmed
at both ends is the one that neither starts nor ends with a character of the class and has only such characters around
it (`trimEnds_eq_iff`). A text is cut behind the characters that are not of the class (`cutAt_append_cons`).
-/

namespace MetricGateway.Text

variable {p : Char → Bool} {cs : List Char}

theorem trimEnd_eq_self_iff : trimEnd p cs = cs ↔ ∀ h : cs ≠ [], p (cs.getLast h) = false := by
  show cs.rdropWhile p = cs ↔ _
  simp only [List.rdropWhile_eq_self_iff, Bool.not_eq_true]

theorem trimEnd_trimEnd (p : Char → Bool) (cs : List Char) : trimEnd p (trimEnd p cs) = trimEnd p cs :=
  List.rdropWhile_idempotent p cs

theorem trimEnd_concat_of_pos {c : Char} (h : p c = true) : trimEnd p (cs ++ [c]) = trimEnd p cs :=
  List.rdropWhile_concat_pos p cs c h

theorem trimEnd_concat_of_neg {c : Char} (h : p c = false) : trimEnd p (cs ++ [c]) = cs ++ [c] :=
  List.rdropWhile_concat_neg p cs c (by simp [h])

theorem trimEnd_singleton_of_neg {c : Char} (h : p c = false) : trimEnd p [c] = [c] :=
  List.rdropWhile_concat_neg p [] c (by simp [h])

theorem trimEnd_append_eq_self_iff {a b : List Char} (hb : b ≠ []) : trimEnd p (a ++ b) = a ++ b ↔ trimEnd p b = b := by
  rw [trimEnd_eq_self_iff, trimEnd_eq_self_iff]
  simp [hb, List.getLast_append_of_ne_nil]

theorem trimEnd_append (p : Char → Bool) (a b : List Char) :
    trimEnd p (a ++ b) = if trimEnd p b = [] then trimEnd p a else a ++ trimEnd p b := by
  unfold trimEnd
  rw [List.reverse_append, List.dropWhile_append]
  cases h : b.reverse.dropWhile p with
  | nil => simp
  | cons c r => simp

theorem trimEnd_eq_self_of_suffix {s : List Char} (h : trimEnd p cs = cs) (hs : s <:+ cs) : trimEnd p s = s := by
  obtain ⟨a, rfl⟩ := hs
  by_cases hnil : s = []
  · rw [hnil]
    rfl
  · exact (trimEnd_append_eq_self_iff hnil).mp h

/-- A text without what is trimmed off it, and the text around it. -/
theorem exists_trimEnds (p : Char → Bool) (cs : List Char) :
    ∃ a b, cs = a ++ trimEnds p cs ++ b ∧ (∀ c ∈ a, p c = true) ∧ ∀ c ∈ b, p c = true := by
  have hsplit : cs.dropWhile p = trimEnds p cs ++ ((cs.dropWhile p).reverse.takeWhile p).reverse := by
    rw [trimEnds, trimEnd, ← List.reverse_append, List.takeWhile_append_dropWhile, List.reverse_reverse]
  refine ⟨cs.takeWhile p, ((cs.dropWhile p).reverse.takeWhile p).reverse, ?_, fun c hc => ?_, fun c hc => ?_⟩
  · rw [List.append_assoc, ← hsplit, List.takeWhile_append_dropWhile]
  · exact List.mem_takeWhile_imp hc
  · exact List.mem_takeWhile_imp (List.mem_reverse.mp hc)

theorem eq_false_of_head?_trimEnds {c : Char} (h : (trimEnds p cs).head? = some c) : p c = false := by
  obtain ⟨r, hr⟩ : trimEnds p cs <+: cs.dropWhile p := List.rdropWhile_prefix p _
  have hhead : (cs.dropWhile p).head? = some c := by rw [← hr, List.head?_append, h, Option.some_or]
  have hnot := List.head?_dropWhile_not p cs
  rw [hhead] at hnot
  simpa using hnot

theorem eq_false_of_getLast?_trimEnds {c : Char} (h : (trimEnds p cs).getLast? = some c) : p c = false := by
  have hself : trimEnd p (trimEnds p cs) = trimEnds p cs := trimEnd_trimEnd p _
  obtain ⟨r, hr⟩ := List.getLast?_eq_some_iff.mp h
  rw [hr] at hself
  simpa using trimEnd_eq_self_iff.mp hself (by simp)

theorem trimEnds_eq_iff {t : List Char} : trimEnds p cs = t ↔
    (∃ a b, cs = a ++ t ++ b ∧ (∀ c ∈ a, p c = true) ∧ ∀ c ∈ b, p c = true) ∧
      (∀ c, t.head? = some c → p c = false) ∧ ∀ c, t.getLast? = some c → p c = false := by
  constructor
  · rintro rfl
    exact ⟨exists_trimEnds p cs, fun _ => eq_false_of_head?_trimEnds, fun _ => eq_false_of_getLast?_trimEnds⟩
  · rintro ⟨⟨a, b, rfl, ha, hb⟩, hhead, hlast⟩
    have hbnil : trimEnd p b = [] := by
      rw [trimEnd, List.dropWhile_eq_nil_iff.mpr fun c hc => hb c (List.mem_reverse.mp hc), List.reverse_nil]
    rw [trimEnds, List.append_assoc, List.dropWhile_append_of_pos ha]
    cases t with
    | nil =>
      rw [List.nil_append, List.dropWhile_eq_nil_iff.mpr hb]
      rfl
    | cons c r =>
      have hc : ¬ p c = true := by simp [hhead c rfl]
      rw [List.cons_append, List.dropWhile_cons_of_neg hc, ← List.cons_append, trimEnd_append, if_pos hbnil]
      exact trimEnd_eq_self_iff.mpr fun hne => hlast _ (List.getLast?_eq_some_getLast hne)

/-! ## Cutting -/

/-- A run of characters of a class ends in front of any other character. -/
theorem takeWhile_append_cons {t : List Char} (ht : t.all p = true) {d : Char} (hd : p d = false)
    (r : List Char) : (t ++ d :: r).takeWhile p = t ∧ (t ++ d :: r).dropWhile p = d :: r := by
  have hall : ∀ c ∈ t, p c = true := List.all_eq_true.mp ht
  rw [List.takeWhile_append_of_pos hall, List.dropWhile_append_of_pos hall]
  simp [hd]

theorem cutAt_append_cons {t : List Char} (h : ∀ c ∈ t, p c = false) {d : Char} (hd : p d = true) (r : List Char) :
    cutAt p (t ++ d :: r) = some (t, r) := by
  have hall : t.all (!p ·) = true := List.all_eq_true.mpr fun c hc => by simp [h c hc]
  obtain ⟨htake, hdrop⟩ := takeWhile_append_cons hall (d := d) (by simp [hd]) r
  rw [cutAt, hdrop, htake]

theorem cutAt_eq_none (h : ∀ c ∈ cs, p c = false) : cutAt p cs = none := by
  have hnil : cs.dropWhile (!p ·) = [] := List.dropWhile_eq_nil_iff.mpr fun c hc => by simp [h c hc]
  rw [cutAt, hnil]

end MetricGateway.Text
