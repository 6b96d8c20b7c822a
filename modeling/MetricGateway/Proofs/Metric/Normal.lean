import Mathlib.Data.List.Chain
import MetricGateway.Metric
import MetricGateway.Proofs.Binary64.Order
import MetricGateway.Proofs.Sorted.Ascending

/-!
# Normal values

Both readers bring the buckets of a histogram and the quantiles of a summary into a normal form. Where no bound is a NaN
(`MetricValue.Ordered`) the normal form of a value is its own normal form (`MetricValue.normalize_normalize`): dropping
repeated bounds leaves a sorted list sorted, and the infinite bucket goes to the end, where it belongs.
-/

namespace MetricGateway

/-! ## Buckets -/

/-- Neighbouring buckets have different bounds. -/
abbrev DistinctBounds : List (Bucket Binary64) → Prop :=
  List.IsChain fun a b => a.upperBound.equals b.upperBound = false

theorem chain_dropRepeatedBounds (last : Bucket Binary64) (bs : List (Bucket Binary64)) :
    DistinctBounds (last :: dropRepeatedBounds last bs) := by
  induction bs generalizing last with
  | nil => exact .singleton _
  | cons b bs ih =>
    rw [dropRepeatedBounds]
    split
    next => exact ih last
    next h => exact .cons_cons (by simpa using h) (ih b)

theorem chain_distinctBounds (bs : List (Bucket Binary64)) : DistinctBounds (distinctBounds bs) := by
  cases bs with
  | nil => exact .nil
  | cons b bs => exact chain_dropRepeatedBounds b bs

theorem dropRepeatedBounds_eq_self {last : Bucket Binary64} {bs : List (Bucket Binary64)}
    (h : DistinctBounds (last :: bs)) : dropRepeatedBounds last bs = bs := by
  induction bs generalizing last with
  | nil => rfl
  | cons b bs ih =>
    obtain ⟨hb, hbs⟩ := List.isChain_cons_cons.mp h
    rw [dropRepeatedBounds, if_neg (by simp [hb]), ih hbs]

theorem distinctBounds_eq_self {bs : List (Bucket Binary64)} (h : DistinctBounds bs) : distinctBounds bs = bs := by
  cases bs with
  | nil => rfl
  | cons b bs => rw [distinctBounds, dropRepeatedBounds_eq_self h]

theorem sublist_dropRepeatedBounds (last : Bucket Binary64) (bs : List (Bucket Binary64)) :
    (dropRepeatedBounds last bs).Sublist bs := by
  induction bs generalizing last with
  | nil => exact .slnil
  | cons b bs ih =>
    rw [dropRepeatedBounds]
    split
    · exact (ih last).cons b
    · exact (ih b).cons_cons b

theorem sublist_distinctBounds (bs : List (Bucket Binary64)) : (distinctBounds bs).Sublist bs := by
  cases bs with
  | nil => exact .slnil
  | cons b bs => exact (sublist_dropRepeatedBounds b bs).cons_cons b

theorem endsInfinite_withInfinite (total : Count) (bs : List (Bucket Binary64)) :
    endsInfinite (withInfinite total bs) = true := by
  unfold withInfinite
  split
  next h => exact h
  next => simp [endsInfinite]; decide

theorem mem_withInfinite {total : Count} {bs : List (Bucket Binary64)} {b : Bucket Binary64}
    (h : b ∈ withInfinite total bs) : b ∈ bs ∨ b.upperBound = .infinity false := by
  unfold withInfinite at h
  split at h
  · exact .inl h
  · rcases List.mem_append.mp h with h | h
    · exact .inl h
    · cases List.mem_singleton.mp h
      exact .inr rfl

/-- The infinite bucket is added only behind buckets of other bounds. -/
theorem chain_withInfinite {total : Count} {bs : List (Bucket Binary64)} (h : DistinctBounds bs) :
    DistinctBounds (withInfinite total bs) := by
  unfold withInfinite
  split
  next => exact h
  next hend =>
    refine List.isChain_append.mpr ⟨h, .singleton _, ?_⟩
    intro a ha b hb
    cases hb
    simpa [endsInfinite, Option.mem_def.mp ha] using hend

theorem pairwise_withInfinite {total : Count} {bs : List (Bucket Binary64)}
    (h : bs.Pairwise fun a b => (compareOn Bucket.upperBound a b).isLE)
    (hnum : ∀ b ∈ bs, b.upperBound.isNaN = false) :
    (withInfinite total bs).Pairwise fun a b => (compareOn Bucket.upperBound a b).isLE := by
  unfold withInfinite
  split
  next => exact h
  next =>
    refine List.pairwise_append.mpr ⟨h, List.pairwise_singleton _ _, fun a ha b hb => ?_⟩
    cases List.mem_singleton.mp hb
    exact Binary64.isLE_compare_infinity (hnum a ha)

/-! ## Values -/

/-- The bounds of the buckets are numbers. -/
def Histogram.Ordered (h : Histogram Binary64) : Prop := ∀ b ∈ h.buckets, b.upperBound.isNaN = false

/-- The shares of the quantiles are numbers. -/
def Summary.Ordered (s : Summary Binary64) : Prop := ∀ q ∈ s.quantiles, q.share.isNaN = false

theorem Histogram.ordered_normalize {h : Histogram Binary64} (hnum : h.Ordered) : h.normalize.Ordered := by
  intro b hb
  rcases mem_withInfinite hb with hb | hb
  · exact hnum b (Sorted.mem_sortBy.mp ((sublist_distinctBounds _).subset hb))
  · rw [hb]
    decide

/-- The steps of normalization do not disturb one another. -/
theorem Histogram.normalize_normalize {h : Histogram Binary64} (hnum : h.Ordered) :
    h.normalize.normalize = h.normalize := by
  have hsub := sublist_distinctBounds (Sorted.sortBy (compareOn Bucket.upperBound) h.buckets)
  have hnum' : ∀ b ∈ distinctBounds (Sorted.sortBy (compareOn Bucket.upperBound) h.buckets),
      b.upperBound.isNaN = false := fun b hb => hnum b (Sorted.mem_sortBy.mp (hsub.subset hb))
  have hsort : Sorted.sortBy (compareOn Bucket.upperBound) h.normalize.buckets = h.normalize.buckets :=
    Sorted.sortBy_eq_self (pairwise_withInfinite ((Sorted.pairwise_sortBy h.buckets).sublist hsub) hnum')
  have hdrop : distinctBounds h.normalize.buckets = h.normalize.buckets :=
    distinctBounds_eq_self (chain_withInfinite (chain_distinctBounds _))
  have hend : withInfinite h.sampleCount h.normalize.buckets = h.normalize.buckets :=
    if_pos (endsInfinite_withInfinite _ _)
  show { h with buckets := withInfinite h.sampleCount (distinctBounds (Sorted.sortBy _ h.normalize.buckets)) } =
    h.normalize
  rw [hsort, hdrop, hend]
  rfl

theorem Summary.ordered_normalize {s : Summary Binary64} (hnum : s.Ordered) : s.normalize.Ordered :=
  fun q hq => hnum q (Sorted.mem_sortBy.mp hq)

theorem Summary.normalize_normalize (s : Summary Binary64) : s.normalize.normalize = s.normalize := by
  simp only [normalize]
  rw [Sorted.sortBy_eq_self (Sorted.pairwise_sortBy _)]

namespace MetricValue

/-- The bounds and the shares in a value are numbers. -/
def Ordered : MetricValue Binary64 → Prop
  | counter _ | gauge _ | untyped _ => True
  | histogram h => h.Ordered
  | summary s => s.Ordered

/-- The value with its buckets or quantiles in normal form. -/
def normalize : MetricValue Binary64 → MetricValue Binary64
  | counter v => counter v
  | gauge v => gauge v
  | untyped v => untyped v
  | histogram h => histogram h.normalize
  | summary s => summary s.normalize

theorem normalize_normalize {v : MetricValue Binary64} (h : v.Ordered) : v.normalize.normalize = v.normalize := by
  cases v with
  | counter | gauge | untyped => rfl
  | histogram h' => exact congrArg histogram (Histogram.normalize_normalize h)
  | summary s => exact congrArg summary (Summary.normalize_normalize s)

end MetricValue
end MetricGateway
