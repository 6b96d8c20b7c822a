import MetricGateway.Proofs.Metric.Shape
import MetricGateway.Proofs.Rearrangement

/-!
# Cumulative histograms

A histogram is cumulative if its counts never fall from one bucket to the next and the last bucket, with the bound
infinity, counts all samples (`Histogram.Cumulative`).

- Normalization brings the buckets of a cumulative histogram back into order and adds the last one if it was left out
  (`Histogram.Cumulative.normalize`).
- Cumulative histograms with the same bounds are combined bucket by bucket into one with these bounds, which is
  cumulative again wherever its counts are cut off (`Histogram.Cumulative.combine`).
-/

namespace MetricGateway

theorem Count.add_le_add {a b c d : Count} (hab : a ≤ b) (hcd : c ≤ d) : add a c ≤ add b d := by
  have hab := UInt64.le_iff_toNat_le.mp hab
  have hcd := UInt64.le_iff_toNat_le.mp hcd
  refine UInt64.le_iff_toNat_le.mpr ?_
  rw [toNat_add, toNat_add]
  omega

namespace Histogram

/-- The counts never fall, and the last bucket is that of infinity and counts all samples. -/
structure Cumulative (h : Histogram Binary64) : Prop where
  rising : h.buckets.Pairwise fun a b => a.cumulativeCount ≤ b.cumulativeCount
  complete : h.buckets.getLast? = some ⟨.infinity false, h.sampleCount⟩

instance (h : Histogram Binary64) : Decidable h.Cumulative :=
  decidable_of_iff (h.buckets.Pairwise (fun a b => a.cumulativeCount ≤ b.cumulativeCount) ∧
    h.buckets.getLast? = some ⟨.infinity false, h.sampleCount⟩) ⟨fun ⟨hr, hc⟩ => ⟨hr, hc⟩, fun ⟨hr, hc⟩ => ⟨hr, hc⟩⟩

/-- The last bucket stands behind all others. -/
theorem Cumulative.dropLast_append {h : Histogram Binary64} (hh : h.Cumulative) :
    h.buckets.dropLast ++ [⟨.infinity false, h.sampleCount⟩] = h.buckets :=
  List.dropLast_append_getLast? _ hh.complete

/-! ## Normalization -/

/-- **Normalization restores a cumulative histogram.** Let `k` be cumulative with increasing bounds. A histogram with
the same number of samples that lists the buckets of `k` in any order, or all but the last one, is normalized to the
buckets of `k`. -/
theorem Cumulative.normalize {h k : Histogram Binary64} (hk : k.Cumulative) (hinc : k.Increasing)
    (hcount : h.sampleCount = k.sampleCount)
    (hperm : h.buckets.Perm k.buckets ∨ h.buckets.Perm k.buckets.dropLast) :
    h.normalize = { h with buckets := k.buckets } := by
  have hlt : k.buckets.Pairwise fun a b => a.upperBound < b.upperBound := List.pairwise_map.mp hinc
  -- buckets in order stay as they are but for the infinite one
  have hkeep : ∀ {bs : List (Bucket Binary64)}, bs.Sublist k.buckets → h.buckets.Perm bs →
      distinctBounds (Sorted.sortBy (compareOn Bucket.upperBound) h.buckets) = bs := by
    intro bs hsub hbs
    have hasc : Sorted.Ascending Bucket.upperBound bs := (hlt.sublist hsub).imp Binary64.compare_of_lt
    have hsort : bs.Pairwise fun a b => (compareOn Bucket.upperBound a b).isLE :=
      hasc.imp fun hab => Ordering.isLE_of_eq_lt hab
    have hnodup : (bs.map Bucket.upperBound).Nodup := List.pairwise_map.mpr hasc.ne
    rw [← (Rearranged.of_perm hbs.symm hnodup).sortBy_eq, Sorted.sortBy_eq_self hsort]
    exact distinctBounds_eq_self ((hlt.sublist hsub).imp Binary64.equals_of_lt).isChain
  have hbuckets : withInfinite h.sampleCount
      (distinctBounds (Sorted.sortBy (compareOn Bucket.upperBound) h.buckets)) = k.buckets := by
    rcases hperm with hperm | hperm
    · have hinf : (Binary64.infinity false).equals (.infinity false) = true := by decide
      have hend : endsInfinite k.buckets = true := by
        rw [endsInfinite, hk.complete, Option.any_some, hinf]
      rw [hkeep (.refl _) hperm, withInfinite, if_pos hend]
    · have hend : endsInfinite k.buckets.dropLast = false := by
        rw [← hk.dropLast_append] at hlt
        refine (Option.any_eq_false ..).mpr fun b hb => ?_
        exact Binary64.equals_of_lt ((List.pairwise_append.mp hlt).2.2 b (List.mem_of_getLast? hb) _
          (List.mem_singleton_self _))
      rw [hkeep (List.dropLast_sublist _) hperm, withInfinite, hend, if_neg Bool.false_ne_true, hcount,
        hk.dropLast_append]
  rw [Histogram.normalize, hbuckets]

/-! ## Combination -/

/-- Histograms with the same bounds are combined bucket by bucket. -/
theorem buckets_combine {a b : Histogram Binary64} (h : a.bounds = b.bounds) :
    (a.combine b).buckets = List.zipWith Bucket.combine a.buckets b.buckets :=
  Sorted.unionBy_eq_zipWith h

theorem bounds_combine {a b : Histogram Binary64} (h : a.bounds = b.bounds) : (a.combine b).bounds = a.bounds := by
  have hlen : a.buckets.length = b.buckets.length := by simpa [bounds] using congrArg List.length h
  refine List.ext_getElem ?_ fun i hi hi' => ?_
  · simp [bounds, buckets_combine h, hlen]
  · simp [bounds, buckets_combine h, Bucket.combine]

/-- **Cumulative histograms with the same bounds are combined into one.** -/
theorem Cumulative.combine {a b : Histogram Binary64} (ha : a.Cumulative) (hb : b.Cumulative)
    (h : a.bounds = b.bounds) : (a.combine b).Cumulative := by
  have hlen : a.buckets.length = b.buckets.length := by simpa [bounds] using congrArg List.length h
  constructor
  · have hrising := List.pairwise_iff_getElem.mp ha.rising
    have hrising' := List.pairwise_iff_getElem.mp hb.rising
    rw [buckets_combine h]
    refine List.pairwise_iff_getElem.mpr fun i j hi hj hij => ?_
    simp only [List.length_zipWith, hlen, Nat.min_self] at hi hj
    rw [List.getElem_zipWith, List.getElem_zipWith]
    exact Count.add_le_add (hrising i j (by omega) (by omega) hij) (hrising' i j hi hj hij)
  · have hinit : a.buckets.dropLast.length = b.buckets.dropLast.length := by simp [hlen]
    rw [buckets_combine h, ← ha.dropLast_append, ← hb.dropLast_append, List.zipWith_append hinit,
      List.zipWith_cons_cons, List.zipWith_nil_left, List.getLast?_concat]
    rfl

end Histogram
end MetricGateway
