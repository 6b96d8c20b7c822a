import Mathlib.Data.List.Nodup
import MetricGateway.Aggregation
import MetricGateway.Binary64.Basic
import MetricGateway.Proofs.Metric.Normal

/-!
# The shape of a histogram

A histogram is in shape if its bounds are numbers in strictly ascending total order, of which the last one is infinity
(`Histogram.Shaped`).

- Normalization brings every histogram whose bounds are numbers into shape (`Histogram.shaped_normalize`), and its
  bounds strictly increase as numbers (`Histogram.increasing_normalize`).
- Histograms in shape are combined into one in shape (`Histogram.Shaped.combine`), and combining adds no bound
  (`Histogram.mem_bounds_combine_iff`).
- The bounds of a histogram in shape strictly increase as numbers exactly if they do not include both zeros
  (`Histogram.Shaped.increasing_iff`): normalization takes equal numbers for one bound, but combining tells the zeros
  apart.
-/

namespace MetricGateway

theorem Bucket.upperBound_of_combine {a b c : Bucket Binary64} (h : some (a.combine b) = some c) :
    c.upperBound = a.upperBound := by
  cases h
  rfl

/-- Histograms of one series are combined under any policy. -/
theorem Metric.combine_of_histograms (policy : AggregationPolicy) {a b : Metric Binary64} {h k : Histogram Binary64}
    (ha : a.value = .histogram h) (hb : b.value = .histogram k) : a.combine policy b =
      some ⟨a.labels, .histogram (h.combine k), Count.add a.observations b.observations⟩ := by
  rw [combine, ha, hb]
  rfl

namespace Histogram

/-- The bounds of a histogram in the order of its buckets. -/
def bounds (h : Histogram Binary64) : List Binary64 := h.buckets.map Bucket.upperBound

/-- The bounds are numbers in strictly ascending total order, and the last one is infinity. -/
structure Shaped (h : Histogram Binary64) : Prop where
  ascending : h.bounds.Pairwise fun x y => compare x y = .lt
  number : ∀ x ∈ h.bounds, x.isNaN = false
  last : h.bounds.getLast? = some (.infinity false)

/-- The bounds strictly increase as numbers. -/
def Increasing (h : Histogram Binary64) : Prop := h.bounds.Pairwise (· < ·)

instance (h : Histogram Binary64) : Decidable h.Increasing := inferInstanceAs (Decidable (List.Pairwise _ _))

/-- Infinity is the last of ascending numbers if it is one of them. -/
theorem getLast?_eq_infinity {xs : List Binary64} (hasc : xs.Pairwise fun x y => compare x y = .lt)
    (hnum : ∀ x ∈ xs, x.isNaN = false) (hinf : Binary64.infinity false ∈ xs) :
    xs.getLast? = some (Binary64.infinity false) := by
  rcases List.eq_nil_or_concat xs with rfl | ⟨init, last, rfl⟩
  · cases hinf
  · rw [List.concat_eq_append] at *
    rw [List.getLast?_concat]
    rcases List.mem_append.mp hinf with hinit | hlast
    · -- infinity would stand before a number
      have hlt := (List.pairwise_append.mp hasc).2.2 _ hinit last (List.mem_singleton_self last)
      have hle := Binary64.isLE_compare_infinity (hnum last (List.mem_append_right _ (List.mem_singleton_self last)))
      rw [Std.OrientedCmp.gt_of_lt hlt] at hle
      cases hle
    · rw [List.mem_singleton.mp hlast]

/-! ## Normalization -/

/-- Sorted buckets whose neighbours have different bounds have bounds that strictly increase as numbers. -/
theorem lt_of_distinctBounds {bs : List (Bucket Binary64)}
    (hsort : bs.Pairwise fun a b => (compareOn Bucket.upperBound a b).isLE) (hdist : DistinctBounds bs)
    (hnum : ∀ b ∈ bs, b.upperBound.isNaN = false) : bs.Pairwise fun a b => a.upperBound < b.upperBound := by
  induction bs with
  | nil => exact .nil
  | cons a bs ih =>
    cases bs with
    | nil => exact List.pairwise_singleton _ a
    | cons b bs =>
      obtain ⟨hab, hdist⟩ := List.isChain_cons_cons.mp hdist
      obtain ⟨hle, hsort⟩ := List.pairwise_cons.mp hsort
      obtain ⟨hna, hnum⟩ := List.forall_mem_cons.mp hnum
      have hrest := ih hsort hdist hnum
      have hlt : a.upperBound < b.upperBound :=
        Binary64.lt_of_isLE hna (hnum b List.mem_cons_self) (hle b List.mem_cons_self) hab
      refine .cons (fun c hc => ?_) hrest
      rcases List.mem_cons.mp hc with rfl | hc
      · exact hlt
      · exact Binary64.lt_trans hlt (List.rel_of_pairwise_cons hrest hc)

/-- **The bounds of a normal histogram increase.** -/
theorem increasing_normalize {h : Histogram Binary64} (hnum : h.Ordered) : h.normalize.Increasing := by
  have hsub := sublist_distinctBounds (Sorted.sortBy (compareOn Bucket.upperBound) h.buckets)
  have hsort : h.normalize.buckets.Pairwise fun a b => (compareOn Bucket.upperBound a b).isLE :=
    pairwise_withInfinite ((Sorted.pairwise_sortBy h.buckets).sublist hsub)
      fun b hb => hnum b (Sorted.mem_sortBy.mp (hsub.subset hb))
  exact List.pairwise_map.mpr
    (lt_of_distinctBounds hsort (chain_withInfinite (chain_distinctBounds _)) (ordered_normalize hnum))

/-- **Normalization brings a histogram into shape.** -/
theorem shaped_normalize {h : Histogram Binary64} (hnum : h.Ordered) : h.normalize.Shaped := by
  have hend : endsInfinite h.normalize.buckets = true := endsInfinite_withInfinite _ _
  constructor
  · exact (increasing_normalize hnum).imp Binary64.compare_of_lt
  · intro x hx
    obtain ⟨b, hb, rfl⟩ := List.mem_map.mp hx
    exact ordered_normalize hnum b hb
  · obtain ⟨b, hb, hinf⟩ := (Option.any_eq_true ..).mp hend
    rw [bounds, List.getLast?_map, hb, Option.map_some, Binary64.eq_infinity_of_equals hinf]

/-! ## Combination -/

/-- The bounds of two histograms are those of the combined one. -/
theorem mem_bounds_combine_iff (a b : Histogram Binary64) (x : Binary64) :
    x ∈ (a.combine b).bounds ↔ x ∈ a.bounds ∨ x ∈ b.bounds :=
  Sorted.mem_map_unionBy_iff (fun c _ d _ _ => ⟨c.combine d, rfl, rfl⟩) x

theorem ascending_combine {a b : Histogram Binary64} (ha : Sorted.Ascending Bucket.upperBound a.buckets)
    (hb : Sorted.Ascending Bucket.upperBound b.buckets) : Sorted.Ascending Bucket.upperBound (a.combine b).buckets :=
  Sorted.ascending_unionBy (fun _ _ _ => Bucket.upperBound_of_combine) ha hb

/-- **Combining keeps the shape.** -/
theorem Shaped.combine {a b : Histogram Binary64} (ha : a.Shaped) (hb : b.Shaped) : (a.combine b).Shaped := by
  have hasc : (a.combine b).bounds.Pairwise fun x y => compare x y = .lt :=
    List.pairwise_map.mpr (ascending_combine (List.pairwise_map.mp ha.ascending) (List.pairwise_map.mp hb.ascending))
  have hnum : ∀ x ∈ (a.combine b).bounds, x.isNaN = false := by
    intro x hx
    rcases (mem_bounds_combine_iff a b x).mp hx with hx | hx
    · exact ha.number x hx
    · exact hb.number x hx
  have hinf : Binary64.infinity false ∈ (a.combine b).bounds :=
    (mem_bounds_combine_iff a b _).mpr (.inl (List.mem_of_getLast? ha.last))
  exact ⟨hasc, hnum, getLast?_eq_infinity hasc hnum hinf⟩

/-! ## Numeric order -/

/-- **When bounds in shape increase as numbers.** -/
theorem Shaped.increasing_iff {h : Histogram Binary64} (hs : h.Shaped) :
    h.Increasing ↔ ¬ (Binary64.negZero ∈ h.bounds ∧ Binary64.zero ∈ h.bounds) := by
  constructor
  · rintro hinc ⟨hneg, hzero⟩
    have hkeys : (h.bounds.map Binary64.numericKey).Nodup :=
      List.pairwise_map.mpr (hinc.imp fun hxy => Int.ne_of_lt hxy.2.2)
    have heq : Binary64.negZero = Binary64.zero := List.inj_on_of_nodup_map hkeys hneg hzero (by decide)
    revert heq
    decide
  · intro hzeros
    refine hs.ascending.imp_of_mem fun {x y} hx hy hxy => ?_
    apply (Binary64.lt_iff_of_compare_lt (hs.number x hx) (hs.number y hy) hxy).mpr
    rintro ⟨rfl, rfl⟩
    exact hzeros ⟨hx, hy⟩

end Histogram

/-- The bounds in a value. -/
def MetricValue.bounds : MetricValue Binary64 → List Binary64
  | histogram h => h.bounds
  | _ => []

end MetricGateway
