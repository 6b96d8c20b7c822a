import MetricGateway.Proofs.Family.Merge
import MetricGateway.Proofs.Label.Identity

/-!
# One identity of series

A family is checked for repeated series by their fingerprints, and merged by the order of their label sets. Both agree
on what one series is: the bytes behind two fingerprints are equal exactly if the families have one name and the label
sets compare equal, so unless digests collide two metrics count as duplicates (`Family.Duplicates`) exactly if merging
combines them (`Family.duplicates_iff_compare_eq`, `Family.identity_unambiguous`).
-/

namespace MetricGateway

/-- A fingerprint is the digest of the bytes of its series. -/
theorem LabelSet.eq_hash_of_fingerprint {s : LabelSet} {family : String} {fp : List UInt8}
    (h : s.fingerprint family = .ok fp) : fp = Blake3.hash (s.identityBytes family) :=
  ((s.fingerprint_eq_ok_iff family fp).mp h).2.symm

/-- The bytes tell apart what the order tells apart. -/
theorem LabelSet.identityBytes_eq_iff_compare_eq {s t : LabelSet} {f g : String} :
    s.identityBytes f = t.identityBytes g ↔ f = g ∧ compare s t = .eq := by
  rw [identityBytes_inj, Std.LawfulEqOrd.compare_eq_iff_eq]

namespace Family

/-- Every series of the family has a fingerprint. -/
def Identified (f : Family) : Prop := ∀ m ∈ f.metrics, ∃ fp, m.labels.fingerprint f.name = .ok fp

theorem identified_iff {f : Family} : f.Identified ↔ ∀ m ∈ f.metrics, m.labels.nameFault? f.name = none := by
  simp [Identified, LabelSet.fingerprint_eq_ok_iff]

instance (f : Family) : Decidable f.Identified := decidable_of_iff _ identified_iff.symm

/-- Two metrics count as duplicates under the name of a family: together they are refused, for the labels of the second
one. -/
def Duplicates (name : String) (a b : Metric Binary64) : Prop :=
  checkSeriesFrom name [] [a, b] = .error (.duplicateLabels name b.labels)

section Pair

variable {name : String} {a b : Metric Binary64} (ha : ∃ fp, a.labels.fingerprint name = .ok fp)
  (hb : ∃ fp, b.labels.fingerprint name = .ok fp)
include ha hb

/-- Metrics that have fingerprints are duplicates exactly if their digests are equal. -/
theorem duplicates_iff : Duplicates name a b ↔ seriesDigest name a = seriesDigest name b := by
  obtain ⟨p, hp⟩ := ha
  obtain ⟨q, hq⟩ := hb
  rw [seriesDigest, seriesDigest, ← LabelSet.eq_hash_of_fingerprint hp, ← LabelSet.eq_hash_of_fingerprint hq]
  simp only [Duplicates, checkSeriesFrom, hp, hq, List.contains_nil, Bool.false_eq_true, if_false]
  by_cases hpq : q = p
  · simp [hpq]
  · simp [hpq, Ne.symm hpq]

/-- Duplicates are what the order of label sets does not tell apart, unless the digests collide. -/
theorem duplicates_iff_compare_eq (hcollision : seriesDigest name a = seriesDigest name b →
      a.labels.identityBytes name = b.labels.identityBytes name) :
    Duplicates name a b ↔ compareOn Metric.labels a b = .eq := by
  rw [duplicates_iff ha hb]
  constructor
  · intro hdigests
    exact (LabelSet.identityBytes_eq_iff_compare_eq.mp (hcollision hdigests)).2
  · intro heq
    rw [seriesDigest, seriesDigest, LabelSet.identityBytes_eq_iff_compare_eq.mpr ⟨rfl, heq⟩]

end Pair

/-- A family is refused exactly if two of its metrics are duplicates. -/
theorem checkSeries_eq_ok_iff_of_identified {f : Family} (hf : f.Identified) :
    f.checkSeries = .ok () ↔ f.metrics.Pairwise fun a b => ¬ Duplicates f.name a b := by
  rw [checkSeries_eq_ok_iff, and_iff_right (identified_iff.mp hf)]
  exact List.Pairwise.iff_of_mem fun ha hb => not_congr (duplicates_iff (hf _ ha) (hf _ hb)).symm

/-- **Series identity is unambiguous.** Where two fingerprints exist, they are the digests of bytes that are equal
exactly if the families have one name and the label sets compare equal. A family whose series have fingerprints is
accepted exactly if no two of its metrics are duplicates. And where digests do not collide, merging two families
combines exactly those metrics of one with metrics of the other that are duplicates, and keeps the others as they
are. -/
theorem identity_unambiguous :
    (∀ (s t : LabelSet) (f g : String) (p q : List UInt8), s.fingerprint f = .ok p → t.fingerprint g = .ok q →
        p = Blake3.hash (s.identityBytes f) ∧ q = Blake3.hash (t.identityBytes g) ∧
          (s.identityBytes f = t.identityBytes g ↔ f = g ∧ compare s t = .eq)) ∧
      (∀ f : Family, f.Identified →
        (f.checkSeries = .ok () ↔ f.metrics.Pairwise fun a b => ¬ Duplicates f.name a b)) ∧
      ∀ (policy : AggregationPolicy) (existing incoming : Family), existing.name = incoming.name →
        existing.type = incoming.type → Sorted.Ascending Metric.labels existing.metrics →
        Sorted.Ascending Metric.labels incoming.metrics → existing.Identified → incoming.Identified →
        (∀ a ∈ existing.metrics, ∀ b ∈ incoming.metrics,
          seriesDigest existing.name a = seriesDigest existing.name b →
            a.labels.identityBytes existing.name = b.labels.identityBytes existing.name) →
        ∃ merged, existing.merge policy incoming = .ok merged ∧ ∀ m, m ∈ merged.metrics ↔
          (m ∈ existing.metrics ∧ ∀ b ∈ incoming.metrics, ¬ Duplicates existing.name m b) ∨
          (m ∈ incoming.metrics ∧ ∀ a ∈ existing.metrics, ¬ Duplicates existing.name a m) ∨
          ∃ a ∈ existing.metrics, ∃ b ∈ incoming.metrics,
            Duplicates existing.name a b ∧ a.combine policy b = some m := by
  refine ⟨fun s t f g p q hs ht => ?_, fun f => checkSeries_eq_ok_iff_of_identified, ?_⟩
  · exact ⟨LabelSet.eq_hash_of_fingerprint hs, LabelSet.eq_hash_of_fingerprint ht,
      LabelSet.identityBytes_eq_iff_compare_eq⟩
  · intro policy existing incoming hname htype hexisting hincoming hfp hfp' hcollision
    have hkeeps : ∀ a b c : Metric Binary64, a.combine policy b = some c → c.labels = a.labels :=
      fun _ _ _ => Metric.labels_of_combine
    have hdup : ∀ a ∈ existing.metrics, ∀ b ∈ incoming.metrics,
        (Duplicates existing.name a b ↔ a.labels = b.labels) := by
      intro a ha b hb
      have hb' : ∃ fp, b.labels.fingerprint existing.name = .ok fp := hname ▸ hfp' b hb
      exact (duplicates_iff_compare_eq (hfp a ha) hb' (hcollision a ha b hb)).trans Std.LawfulEqOrd.compare_eq_iff_eq
    refine ⟨_, (merge_eq_ok_iff ..).mpr ⟨htype, rfl⟩, fun m => ?_⟩
    refine (Sorted.mem_unionBy_iff hkeeps hexisting hincoming).trans ?_
    refine or_congr ?_ (or_congr ?_ ?_)
    · refine and_congr_right fun hm => forall₂_congr fun b hb => ?_
      rw [hdup m hm b hb, ne_comm]
    · refine and_congr_right fun hm => forall₂_congr fun a ha => ?_
      rw [hdup a ha m hm]
    · refine exists_congr fun a => and_congr_right fun ha => exists_congr fun b => and_congr_right fun hb => ?_
      rw [hdup a ha b hb]

/-- Two families have one series in common. Its metrics count as duplicates and are combined. -/
theorem identity_unambiguous_loads :
    let existing := loads [("/a", .gauge (1 : Nat)), ("/c", .gauge (3 : Nat))]
    let incoming := loads [("/b", .gauge (2 : Nat)), ("/c", .gauge (5 : Nat))]
    existing.Identified ∧ incoming.Identified ∧
      (∀ a ∈ existing.metrics, ∀ b ∈ incoming.metrics, seriesDigest "load" a = seriesDigest "load" b →
        a.labels.identityBytes "load" = b.labels.identityBytes "load") ∧
      (ofPath "/a").identityBytes "load" ≠ (ofPath "/b").identityBytes "load" ∧
      ¬ (existing.metrics ++ incoming.metrics).Pairwise (fun a b => ¬ Duplicates "load" a b) ∧
      ∃ merged, existing.merge { gauge := .max } incoming = .ok merged ∧
        ⟨ofPath "/c", .gauge (5 : Nat), 2⟩ ∈ merged.metrics := by
  intro existing incoming
  have hexisting : existing.Identified := by decide +kernel
  have hincoming : incoming.Identified := by decide +kernel
  have hcollision : ∀ a ∈ existing.metrics, ∀ b ∈ incoming.metrics, seriesDigest "load" a = seriesDigest "load" b →
      a.labels.identityBytes "load" = b.labels.identityBytes "load" := by decide +kernel
  obtain ⟨hbytes, hcheck, hmerge⟩ := identity_unambiguous
  refine ⟨hexisting, hincoming, hcollision, ?_, ?_, ?_⟩
  · obtain ⟨p, hp⟩ := hexisting ⟨ofPath "/a", .gauge (1 : Nat), 1⟩ (by decide +kernel)
    obtain ⟨q, hq⟩ := hincoming ⟨ofPath "/b", .gauge (2 : Nat), 1⟩ (by decide +kernel)
    intro hsame
    have heq := ((hbytes _ _ _ _ p q hp hq).2.2.mp hsame).2
    revert heq
    decide +kernel
  · let both : Family := { existing with metrics := existing.metrics ++ incoming.metrics }
    have hboth : both.Identified := by decide +kernel
    intro hnone
    have hne := labels_ne_of_checkSeries ((hcheck both hboth).mpr hnone)
    revert hne
    decide +kernel
  · have hasc : Sorted.Ascending Metric.labels existing.metrics := by decide
    have hasc' : Sorted.Ascending Metric.labels incoming.metrics := by decide
    obtain ⟨merged, hmerged, hmem⟩ :=
      hmerge { gauge := .max } existing incoming rfl rfl hasc hasc' hexisting hincoming hcollision
    refine ⟨merged, hmerged, (hmem _).mpr (.inr (.inr ?_))⟩
    refine ⟨⟨ofPath "/c", .gauge (3 : Nat), 1⟩, by decide +kernel, ⟨ofPath "/c", .gauge (5 : Nat), 1⟩,
      by decide +kernel, ?_, by decide +kernel⟩
    have hfp : ∃ fp, (ofPath "/c").fingerprint "load" = .ok fp :=
      hexisting ⟨ofPath "/c", .gauge (3 : Nat), 1⟩ (by decide +kernel)
    exact (duplicates_iff hfp hfp).mpr (by rw [seriesDigest, seriesDigest])

end Family
end MetricGateway
