import MetricGateway.Family

/-!
# What the checks of a family accept

Both checks are characterised by what they accept, and the second one by what it refuses as well
(`exists_of_checkSeriesFrom`).

- `checkReserved_eq_ok_iff`: no label of any metric has a reserved name.
- `checkSeries_eq_ok_iff`: every name can be written, and the digests of the series are pairwise different; so the label
  sets are pairwise different too (`labels_ne_of_checkSeries`).
-/

namespace MetricGateway

/-! ## Names -/

/-- A label name is free in a family unless it starts with two underscores or belongs to the type of the family. -/
theorem MetricType.reservedProblem?_eq_none_iff (type : MetricType) (name : String) :
    type.reservedProblem? name = none ↔ ¬ ['_', '_'] <+: name.toList ∧
      ¬ (type = .histogram ∧ name = boundLabel) ∧ ¬ (type = .summary ∧ name = quantileLabel) := by
  rw [← List.isPrefixOf_iff_prefix]
  unfold MetricType.reservedProblem?
  split
  · simp_all
  · split
    · simp_all
    · split <;> simp_all

/-- A label has no fault exactly if its name can be written: the empty text is no name. -/
theorem Label.nameFault?_eq_none_iff (l : Label) : l.nameFault? = none ↔ isLabelName l.name = true := by
  unfold Label.nameFault?
  split
  next h =>
    rw [h]
    constructor
    · intro h'
      cases h'
    · intro h'
      cases h'
  next => split <;> simp_all

theorem LabelSet.nameFault?_eq_none_iff (s : LabelSet) (family : String) :
    s.nameFault? family = none ↔ isMetricName family = true ∧ ∀ l ∈ s.toList, isLabelName l.name = true := by
  unfold LabelSet.nameFault?
  split
  next h => simp only [List.findSome?_eq_none_iff, Label.nameFault?_eq_none_iff, h, true_and]
  next h => simp [h]

/-- A series has a fingerprint exactly if its names can be written, and then it is the digest of its bytes. -/
theorem LabelSet.fingerprint_eq_ok_iff (s : LabelSet) (family : String) (fp : List UInt8) :
    s.fingerprint family = .ok fp ↔ s.nameFault? family = none ∧ Blake3.hash (s.identityBytes family) = fp := by
  unfold LabelSet.fingerprint
  cases s.nameFault? family with
  | some fault => simp
  | none => simp

namespace Family

theorem checkReserved_eq_ok_iff (f : Family) :
    f.checkReserved = .ok () ↔ ∀ m ∈ f.metrics, ∀ l ∈ m.labels.toList, f.type.reservedProblem? l.name = none := by
  have hf : f.checkReserved = .ok () ↔ f.reservedFault? = none := by
    unfold checkReserved
    cases f.reservedFault? <;> simp
  rw [hf]
  simp only [reservedFault?, List.findSome?_eq_none_iff, Option.map_eq_none_iff, List.mem_flatMap]
  exact ⟨fun h m hm l hl => h l ⟨m, hm, hl⟩, fun h l ⟨m, hm, hl⟩ => h m hm l hl⟩

/-! ## Series -/

/-- The digest by which a metric of a family is told apart. -/
def seriesDigest (family : String) (m : Metric Binary64) : List UInt8 := Blake3.hash (m.labels.identityBytes family)

/-- Metrics pass the check exactly if their names can be written and their digests are new and pairwise different. -/
theorem checkSeriesFrom_eq_ok_iff (family : String) (seen : List (List UInt8)) (ms : List (Metric Binary64)) :
    checkSeriesFrom family seen ms = .ok () ↔
      (∀ m ∈ ms, m.labels.nameFault? family = none ∧ seriesDigest family m ∉ seen) ∧
        ms.Pairwise fun a b => seriesDigest family a ≠ seriesDigest family b := by
  induction ms generalizing seen with
  | nil => simp [checkSeriesFrom]
  | cons m ms ih =>
    unfold checkSeriesFrom
    cases hfp : m.labels.fingerprint family with
    | error fault =>
      have hne : m.labels.nameFault? family ≠ none := fun hn => by
        rw [(m.labels.fingerprint_eq_ok_iff family _).mpr ⟨hn, rfl⟩] at hfp
        cases hfp
      simp [hne]
    | ok fp =>
      obtain ⟨hn, rfl⟩ := (m.labels.fingerprint_eq_ok_iff family fp).mp hfp
      change (if seen.contains (seriesDigest family m) = true then _ else
        checkSeriesFrom family (seriesDigest family m :: seen) ms) = .ok () ↔ _
      split
      next hs => simp_all
      next hs =>
        rw [ih]
        simp only [List.mem_cons, not_or, List.pairwise_cons, List.contains_eq_mem, decide_eq_true_eq] at hs ⊢
        constructor
        · rintro ⟨hms, hp⟩
          refine ⟨fun z hz => ?_, fun z hz he => (hms z hz).2.1 he.symm, hp⟩
          rcases hz with rfl | hz
          · exact ⟨hn, hs⟩
          · exact ⟨(hms z hz).1, (hms z hz).2.2⟩
        · rintro ⟨hms, hm, hp⟩
          exact ⟨fun z hz => ⟨(hms z (.inr hz)).1, fun he => hm z hz he.symm, (hms z (.inr hz)).2⟩, hp⟩

/-- Metrics are refused for a name, or at one of them whose digest a metric before it has. -/
theorem exists_of_checkSeriesFrom {family : String} {seen : List (List UInt8)} {ms : List (Metric Binary64)}
    {e : FamilyError} (h : checkSeriesFrom family seen ms = .error e) :
    (∃ fault, e = .invalidLabel family fault) ∨
      ∃ before m behind, ms = before ++ m :: behind ∧ e = .duplicateLabels family m.labels ∧
        (seriesDigest family m ∈ seen ∨ ∃ a ∈ before, seriesDigest family a = seriesDigest family m) := by
  induction ms generalizing seen with
  | nil => cases h
  | cons m ms ih =>
    unfold checkSeriesFrom at h
    split at h
    next fault _ =>
      cases h
      exact .inl ⟨fault, rfl⟩
    next fp hfp =>
      obtain ⟨-, rfl⟩ := (m.labels.fingerprint_eq_ok_iff family fp).mp hfp
      split at h
      next hseen =>
        cases h
        exact .inr ⟨[], m, ms, rfl, rfl, .inl (List.contains_iff_mem.mp hseen)⟩
      next =>
        rcases ih h with hfault | ⟨before, m', behind, rfl, he, hdigest⟩
        · exact .inl hfault
        refine .inr ⟨m :: before, m', behind, rfl, he, ?_⟩
        rcases hdigest with hseen | ⟨a, ha, hdigest⟩
        · rcases List.mem_cons.mp hseen with hm | hseen
          · exact .inr ⟨m, List.mem_cons_self, hm.symm⟩
          · exact .inl hseen
        · exact .inr ⟨a, List.mem_cons_of_mem _ ha, hdigest⟩

theorem checkSeries_eq_ok_iff (f : Family) :
    f.checkSeries = .ok () ↔ (∀ m ∈ f.metrics, m.labels.nameFault? f.name = none) ∧
      f.metrics.Pairwise fun a b => seriesDigest f.name a ≠ seriesDigest f.name b := by
  simp [checkSeries, checkSeriesFrom_eq_ok_iff]

theorem labels_ne_of_checkSeries {f : Family} (h : f.checkSeries = .ok ()) :
    f.metrics.Pairwise fun a b => a.labels ≠ b.labels := by
  obtain ⟨-, hp⟩ := f.checkSeries_eq_ok_iff.mp h
  refine hp.imp ?_
  intro a b hab he
  exact hab (by rw [seriesDigest, he, seriesDigest])

end Family
end MetricGateway
