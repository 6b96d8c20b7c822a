import MetricGateway.Proofs.Text.Blank

/-!
# Pieces between a separator

Cutting a text at a character and joining the pieces with that character are inverse to each other, and no piece has the
separator (`not_mem_of_mem_splitOn`). So a text has exactly one list of pieces (`splitOn_eq_iff`). A joint text starts
with the separator exactly if the first of several texts is empty (`head?_intercalate_eq_iff`), and ends with it exactly
if the last one is (`getLast?_intercalate_eq_iff`); otherwise nothing is trimmed off it (`trimEnds_beq_eq_iff`).
-/

namespace MetricGateway.Text

variable {s : Char}

/-- No piece has the separator. -/
theorem not_mem_of_mem_splitOn {cs t : List Char} (h : t ∈ cs.splitOn s) : s ∉ t := by
  induction cs generalizing t with
  | nil => simp_all
  | cons c r ih =>
    rw [List.splitOn_cons_eq_if_modifyHead] at h
    split at h
    · rcases List.mem_cons.mp h with rfl | h
      · simp
      · exact ih h
    next hc =>
      obtain ⟨u, us, hpieces⟩ := List.exists_cons_of_ne_nil (List.splitOn_ne_nil s r)
      rw [hpieces] at h ih
      rcases List.mem_cons.mp h with rfl | h
      · intro hs
        rcases List.mem_cons.mp hs with hs | hs
        · exact hc (beq_iff_eq.mpr hs.symm)
        · exact ih List.mem_cons_self hs
      · exact ih (List.mem_cons_of_mem _ h)

/-- A text has exactly one list of pieces. -/
theorem splitOn_eq_iff {cs : List Char} {ps : List (List Char)} :
    cs.splitOn s = ps ↔ ps ≠ [] ∧ (∀ t ∈ ps, s ∉ t) ∧ [s].intercalate ps = cs := by
  constructor
  · rintro rfl
    exact ⟨List.splitOn_ne_nil _ _, fun _ => not_mem_of_mem_splitOn, List.intercalate_splitOn s⟩
  · rintro ⟨hne, h, rfl⟩
    exact List.splitOn_intercalate s h hne

/-! ## Words -/

/-- A text without blanks is one word, also behind a blank. -/
theorem words_eq_singleton {t : List Char} (hne : t ≠ []) (h : ∀ c ∈ t, isBlank c = false) : words t = [t] := by
  simp [words, List.splitOnP_eq_singleton h, hne]

theorem words_append_cons {t : List Char} (hne : t ≠ []) (h : ∀ c ∈ t, isBlank c = false) {d : Char}
    (hd : isBlank d = true) (cs : List Char) : words (t ++ d :: cs) = t :: words cs := by
  simp [words, List.splitOnP_append_cons_of_forall_mem h d hd, hne]

theorem words_cons {d : Char} (hd : isBlank d = true) (cs : List Char) : words (d :: cs) = words cs := by
  simp [words, List.splitOnP_cons_eq_if_modifyHead, hd]

/-! ## The ends of a joint text -/

section Ends

variable {ps : List (List Char)}

theorem intercalate_concat (sep t : List Char) {r : List (List Char)} (hr : r ≠ []) :
    sep.intercalate (r ++ [t]) = sep.intercalate r ++ sep ++ t := by
  induction r with
  | nil => exact absurd rfl hr
  | cons u r ih =>
    by_cases hnil : r = []
    · simp [hnil]
    · rw [List.cons_append, List.intercalate_cons_of_ne_nil (by simp), List.intercalate_cons_of_ne_nil hnil, ih hnil]
      simp only [List.append_assoc]

theorem intercalate_eq_nil_iff : [s].intercalate ps = [] ↔ ps = [] ∨ ps = [[]] := by
  cases ps with
  | nil => simp
  | cons t r =>
    by_cases hr : r = []
    · simp [hr]
    · simp [List.intercalate_cons_of_ne_nil hr, hr]

/-- A joint text starts with the separator only behind an empty text. -/
theorem head?_intercalate_eq_iff (h : ∀ t ∈ ps, s ∉ t) :
    ([s].intercalate ps).head? = some s ↔ 1 < ps.length ∧ ps.head? = some [] := by
  have hself : ∀ t ∈ ps, t.head? ≠ some s := fun t ht hs => h t ht (List.mem_of_mem_head? hs)
  cases ps with
  | nil => simp
  | cons t r =>
    have ht := hself t List.mem_cons_self
    by_cases hr : r = []
    · simpa [hr] using ht
    · have hlength : 1 < (t :: r).length := Nat.succ_lt_succ (List.length_pos_of_ne_nil hr)
      rw [List.intercalate_cons_of_ne_nil hr, List.append_assoc, List.head?_append, and_iff_right hlength]
      cases t with
      | nil => simp
      | cons c t => simpa using ht

/-- A joint text ends with the separator only in front of an empty text. -/
theorem getLast?_intercalate_eq_iff (h : ∀ t ∈ ps, s ∉ t) :
    ([s].intercalate ps).getLast? = some s ↔ 1 < ps.length ∧ ps.getLast? = some [] := by
  have hself : ∀ t ∈ ps, t.getLast? ≠ some s := fun t ht hs => h t ht (List.mem_of_getLast? hs)
  rcases List.eq_nil_or_concat' ps with rfl | ⟨r, t, rfl⟩
  · simp
  · have ht := hself t (by simp)
    by_cases hr : r = []
    · simpa [hr] using ht
    · have hlength : 1 < (r ++ [t]).length := by simpa using List.length_pos_of_ne_nil hr
      rw [intercalate_concat _ _ hr, List.getLast?_append, List.getLast?_concat, and_iff_right hlength]
      cases hlast : t.getLast? with
      | none => simp [List.getLast?_eq_none_iff.mp hlast]
      | some c =>
        rw [hlast] at ht
        have hne : t ≠ [] := fun hnil => by simp [hnil] at hlast
        simpa [hne] using ht

/-- The joint text of texts that are not empty and have no separator does not end with the separator. -/
theorem exists_intercalate_eq_append (hne : ps ≠ []) (h : ∀ t ∈ ps, t ≠ [] ∧ s ∉ t) :
    ∃ b d, [s].intercalate ps = b ++ [d] ∧ d ≠ s := by
  have hempty : [] ∉ ps := fun hnil => (h [] hnil).1 rfl
  have hjoin : [s].intercalate ps ≠ [] := by
    rw [Ne, intercalate_eq_nil_iff]
    rintro (hnil | rfl)
    · exact hne hnil
    · exact hempty List.mem_cons_self
  refine ⟨_, _, (List.dropLast_concat_getLast hjoin).symm, fun hd => ?_⟩
  have hlast : ([s].intercalate ps).getLast? = some s := by rw [List.getLast?_eq_some_getLast hjoin, hd]
  have hps := (getLast?_intercalate_eq_iff fun t ht => (h t ht).2).mp hlast
  exact hempty (List.mem_of_getLast? hps.2)

end Ends

/-! ## Trimming -/

/-- A text that starts and ends with other characters has nothing to trim. -/
theorem trimEnds_eq_self {p : Char → Bool} {cs a b : List Char} {c d : Char} (hc : cs = c :: a) (hpc : p c = false)
    (hd : cs = b ++ [d]) (hpd : p d = false) : trimEnds p cs = cs := by
  refine trimEnds_eq_iff.mpr ⟨⟨[], [], by simp⟩, fun e he => ?_, fun e he => ?_⟩
  · rw [hc] at he
    cases he
    exact hpc
  · rw [hd, List.getLast?_concat] at he
    cases he
    exact hpd

/-- A text without the separators at its ends. -/
theorem trimEnds_beq_eq_iff {cs t : List Char} : trimEnds (· == s) cs = t ↔
    (∃ m n, cs = List.replicate m s ++ t ++ List.replicate n s) ∧ t.head? ≠ some s ∧ t.getLast? ≠ some s := by
  have hends : ∀ o : Option Char, (∀ c, o = some c → (c == s) = false) ↔ o ≠ some s := by
    intro o
    cases o <;> simp
  rw [trimEnds_eq_iff, hends, hends]
  refine and_congr_left' ?_
  constructor
  · rintro ⟨a, b, rfl, ha, hb⟩
    have hall : ∀ r : List Char, (∀ c ∈ r, (c == s) = true) → r = List.replicate r.length s := fun r hr =>
      List.eq_replicate_iff.mpr ⟨rfl, fun c hc => beq_iff_eq.mp (hr c hc)⟩
    exact ⟨a.length, b.length, by rw [← hall a ha, ← hall b hb]⟩
  · rintro ⟨m, n, rfl⟩
    exact ⟨_, _, rfl, by simp, by simp⟩

theorem trimEnds_intercalate {ps : List (List Char)} (h : ∀ t ∈ ps, t ≠ [] ∧ s ∉ t) :
    trimEnds (· == s) ([s].intercalate ps) = [s].intercalate ps := by
  have hsep : ∀ t ∈ ps, s ∉ t := fun t ht => (h t ht).2
  refine trimEnds_beq_eq_iff.mpr ⟨⟨0, 0, by simp⟩, fun hhead => ?_, fun hlast => ?_⟩
  · exact (h [] (List.mem_of_mem_head? ((head?_intercalate_eq_iff hsep).mp hhead).2)).1 rfl
  · exact (h [] (List.mem_of_getLast? ((getLast?_intercalate_eq_iff hsep).mp hlast).2)).1 rfl

end MetricGateway.Text
