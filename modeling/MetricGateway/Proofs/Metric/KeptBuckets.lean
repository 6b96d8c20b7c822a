import MetricGateway.Proofs.Metric.Shape
import MetricGateway.Proofs.Sorted.First

/-!
# The buckets that normalization keeps

In a sorted list equal bounds are neighbours, also the two zeros, so dropping repeated bounds leaves of each bound the
bucket that a search would find (`mem_distinctBounds_iff`). Before sorting this is the first bucket of the least of the
equal bounds (`Histogram.mem_normalize_iff`). The bounds of a normal histogram strictly increase as numbers
(`Histogram.increasing_normalize`), and numerically they are the bounds of the histogram and infinity
(`Histogram.exists_equals_normalize_iff`).
-/

namespace MetricGateway

/-! ## Dropping repeated bounds -/

section Dropping

variable {last b c : Bucket Binary64} {bs : List (Bucket Binary64)}

/-- The search for a bound ends at the bucket in front, or it goes on behind it. -/
theorem find?_equals_cons_iff (hc : c.upperBound.isNaN = false) :
    (c :: bs).find? (·.upperBound.equals b.upperBound) = some b ↔
      b = c ∨ c.upperBound.equals b.upperBound = false ∧ bs.find? (·.upperBound.equals b.upperBound) = some b := by
  rw [List.find?_cons]
  cases hcb : c.upperBound.equals b.upperBound with
  | true => simp [eq_comm]
  | false =>
    have hbc : b ≠ c := by
      rintro rfl
      rw [Binary64.equals_self hc] at hcb
      cases hcb
    simp [hbc]

/-- Behind a bucket, those that a search finds and that have another bound are kept. -/
theorem mem_dropRepeatedBounds_iff
    (hsort : (last :: bs).Pairwise fun a b => (compareOn Bucket.upperBound a b).isLE)
    (hnum : ∀ b ∈ last :: bs, b.upperBound.isNaN = false) :
    b ∈ dropRepeatedBounds last bs ↔ last.upperBound.equals b.upperBound = false ∧
      bs.find? (·.upperBound.equals b.upperBound) = some b := by
  induction bs generalizing last with
  | nil => simp [dropRepeatedBounds]
  | cons c bs ih =>
    obtain ⟨hlast, hsort'⟩ := List.pairwise_cons.mp hsort
    obtain ⟨hnlast, hnum'⟩ := List.forall_mem_cons.mp hnum
    obtain ⟨hnc, hnbs⟩ := List.forall_mem_cons.mp hnum'
    rw [dropRepeatedBounds]
    split
    next hlc =>
      have hsort'' : (last :: bs).Pairwise fun a b => (compareOn Bucket.upperBound a b).isLE :=
        .cons (fun z hz => hlast z (List.mem_cons_of_mem c hz)) hsort'.of_cons
      rw [ih hsort'' (List.forall_mem_cons.mpr ⟨hnlast, hnbs⟩), List.find?_cons]
      refine and_congr_right fun hlb => ?_
      -- `c` has the bound of `last`, which `b` does not have
      have hcb : c.upperBound.equals b.upperBound = false := by
        rw [Binary64.equals_comm, ← Binary64.equals_congr hlc, Binary64.equals_comm]
        exact hlb
      rw [hcb]
    next hlc =>
      have hlc : last.upperBound < c.upperBound :=
        Binary64.lt_of_isLE hnlast hnc (hlast c List.mem_cons_self) (by simpa using hlc)
      rw [List.mem_cons, ih hsort' hnum', ← find?_equals_cons_iff hnc]
      refine (and_iff_right_of_imp fun hfind => ?_).symm
      -- from `c` on all bounds are above that of `last`
      rcases List.mem_cons.mp (List.mem_of_find?_eq_some hfind) with rfl | hb
      · exact Binary64.equals_of_lt hlc
      · have hkey := Binary64.numericKey_le_of_isLE ((List.pairwise_cons.mp hsort').1 b hb)
        exact Binary64.equals_of_lt ⟨hnlast, hnbs b hb, Int.lt_of_lt_of_le hlc.2.2 hkey⟩

/-- Of each bound the first bucket is kept. -/
theorem mem_distinctBounds_iff (hsort : bs.Pairwise fun a b => (compareOn Bucket.upperBound a b).isLE)
    (hnum : ∀ b ∈ bs, b.upperBound.isNaN = false) :
    b ∈ distinctBounds bs ↔ bs.find? (·.upperBound.equals b.upperBound) = some b := by
  cases bs with
  | nil => simp [distinctBounds]
  | cons c bs =>
    rw [distinctBounds, List.mem_cons, mem_dropRepeatedBounds_iff hsort hnum,
      find?_equals_cons_iff (hnum c List.mem_cons_self)]

end Dropping

/-! ## Normalization -/

namespace Histogram

variable {h : Histogram Binary64}

/-- The bucket at a place is the first one with the least of the bounds that are equal to its own. -/
abbrev KeepsFirst (h : Histogram Binary64) (i : Nat) (b : Bucket Binary64) : Prop :=
  Sorted.IsFirst (compareOn Bucket.upperBound) (·.upperBound.equals b.upperBound) h.buckets i b

theorem mem_buckets_of_keepsFirst {i : Nat} {b : Bucket Binary64} (h' : h.KeepsFirst i b) : b ∈ h.buckets :=
  List.mem_of_getElem? h'.here

/-- The buckets that are left of a histogram when repeated bounds are dropped. -/
theorem mem_distinctBounds_sortBy_iff (hnum : h.Ordered) (b : Bucket Binary64) :
    b ∈ distinctBounds (Sorted.sortBy (compareOn Bucket.upperBound) h.buckets) ↔ ∃ i, h.KeepsFirst i b := by
  rw [mem_distinctBounds_iff (Sorted.pairwise_sortBy h.buckets) fun b hb => hnum b (Sorted.mem_sortBy.mp hb)]
  exact Sorted.find?_sortBy_eq_some_iff

/-- Of every bound some bucket is kept. -/
theorem exists_keepsFirst {c : Bucket Binary64} (hnum : h.Ordered) (hc : c ∈ h.buckets) :
    ∃ i b, h.KeepsFirst i b ∧ b.upperBound.equals c.upperBound = true := by
  have hfound : ((Sorted.sortBy (compareOn Bucket.upperBound) h.buckets).find?
      (·.upperBound.equals c.upperBound)).isSome :=
    List.find?_isSome.mpr ⟨c, Sorted.mem_sortBy.mpr hc, Binary64.equals_self (hnum c hc)⟩
  obtain ⟨b, hb⟩ := Option.isSome_iff_exists.mp hfound
  obtain ⟨i, hi⟩ := Sorted.find?_sortBy_eq_some_iff.mp hb
  have hbc : b.upperBound.equals c.upperBound = true := hi.passes
  have hsame : (fun d : Bucket Binary64 => d.upperBound.equals c.upperBound) =
      fun d => d.upperBound.equals b.upperBound := by
    funext d
    exact (Binary64.equals_congr hbc d.upperBound).symm
  rw [hsame] at hi
  exact ⟨i, b, hi, hbc⟩

/-- Whether infinity is the last of the bounds that are left only depends on whether it is a bound. -/
theorem endsInfinite_iff (hnum : h.Ordered) :
    endsInfinite (distinctBounds (Sorted.sortBy (compareOn Bucket.upperBound) h.buckets)) = true ↔
      Binary64.infinity false ∈ h.bounds := by
  constructor
  · intro hend
    obtain ⟨b, hb, hinf⟩ := (Option.any_eq_true ..).mp hend
    obtain ⟨i, hi⟩ := (mem_distinctBounds_sortBy_iff hnum b).mp (List.mem_of_getLast? hb)
    exact List.mem_map.mpr ⟨b, mem_buckets_of_keepsFirst hi, Binary64.eq_infinity_of_equals hinf⟩
  · intro hmem
    obtain ⟨c, hc, hinf⟩ := List.mem_map.mp hmem
    obtain ⟨i, b, hi, hbc⟩ := exists_keepsFirst hnum hc
    have hb := (mem_distinctBounds_sortBy_iff hnum b).mpr ⟨i, hi⟩
    rw [hinf] at hbc
    by_contra hend
    -- infinity would be added behind itself
    have hinc : (withInfinite h.sampleCount _).Pairwise fun a b => a.upperBound < b.upperBound :=
      List.pairwise_map.mp (increasing_normalize hnum)
    rw [withInfinite, if_neg hend] at hinc
    have hlt := (List.pairwise_append.mp hinc).2.2 b hb _ (List.mem_singleton_self _)
    rw [Binary64.equals_of_lt hlt] at hbc
    cases hbc

/-- **The buckets of a normal histogram.** -/
theorem mem_normalize_iff (hnum : h.Ordered) (b : Bucket Binary64) :
    b ∈ h.normalize.buckets ↔ (∃ i, h.KeepsFirst i b) ∨
      b = ⟨.infinity false, h.sampleCount⟩ ∧ Binary64.infinity false ∉ h.bounds := by
  rw [← mem_distinctBounds_sortBy_iff hnum, ← endsInfinite_iff hnum]
  show b ∈ withInfinite _ _ ↔ _
  unfold withInfinite
  split
  next hend => simp [hend]
  next hend => simp [hend]

/-- **The bounds of a normal histogram, numerically.** -/
theorem exists_equals_normalize_iff (hnum : h.Ordered) (x : Binary64) :
    (∃ y ∈ h.normalize.bounds, y.equals x = true) ↔
      (∃ y ∈ h.bounds, y.equals x = true) ∨ x = .infinity false := by
  constructor
  · rintro ⟨y, hy, hyx⟩
    obtain ⟨b, hb, rfl⟩ := List.mem_map.mp hy
    rcases (mem_normalize_iff hnum b).mp hb with ⟨i, hi⟩ | ⟨rfl, -⟩
    · exact .inl ⟨_, List.mem_map_of_mem (mem_buckets_of_keepsFirst hi), hyx⟩
    · rw [Binary64.equals_comm] at hyx
      exact .inr (Binary64.eq_infinity_of_equals hyx)
  · rintro (⟨y, hy, hyx⟩ | rfl)
    · obtain ⟨c, hc, rfl⟩ := List.mem_map.mp hy
      obtain ⟨i, b, hi, hbc⟩ := exists_keepsFirst hnum hc
      refine ⟨_, List.mem_map_of_mem ((mem_normalize_iff hnum b).mpr (.inl ⟨i, hi⟩)), ?_⟩
      rwa [← Binary64.equals_congr hyx]
    · exact ⟨_, List.mem_of_getLast? (shaped_normalize hnum).last, by decide⟩

/-- **Normalization yields a valid bucket list and loses no bound.** Let no bound of a histogram be a NaN. In normal
form its bounds strictly increase as numbers and end with infinity. A number is one of them exactly if it is equal to a
bound of the histogram, or if it is infinity. Their buckets are those that the histogram lists first among those with
one bound, where of the two zeros the negative one is kept, and a bucket of all samples for infinity if the histogram
has none. Nothing else changes, and normalizing again changes nothing. -/
theorem normalize_keeps_bounds (hnum : h.Ordered) :
    h.normalize.Increasing ∧ h.normalize.bounds.getLast? = some (.infinity false) ∧
      (∀ x, (∃ y ∈ h.normalize.bounds, y.equals x = true) ↔
        (∃ y ∈ h.bounds, y.equals x = true) ∨ x = .infinity false) ∧
      (∀ b, b ∈ h.normalize.buckets ↔
        (∃ i : Nat, h.buckets[i]? = some b ∧ ∀ (j : Nat) (c : Bucket Binary64), h.buckets[j]? = some c →
          c.upperBound.equals b.upperBound = true →
            compare b.upperBound c.upperBound = .lt ∨ b.upperBound = c.upperBound ∧ i ≤ j) ∨
        b = ⟨.infinity false, h.sampleCount⟩ ∧ Binary64.infinity false ∉ h.bounds) ∧
      h.normalize.sampleCount = h.sampleCount ∧ h.normalize.sampleSum = h.sampleSum ∧
      h.normalize.normalize = h.normalize := by
  refine ⟨increasing_normalize hnum, (shaped_normalize hnum).last, exists_equals_normalize_iff hnum, fun b => ?_, rfl,
    rfl, normalize_normalize hnum⟩
  rw [mem_normalize_iff hnum]
  refine or_congr_left (exists_congr fun i => ?_)
  constructor
  · intro hi
    refine ⟨hi.here, fun j c hj hc => (hi.first j c hj hc).imp_right fun ⟨heq, hij⟩ => ⟨?_, hij⟩⟩
    exact Std.LawfulEqOrd.eq_of_compare heq
  · rintro ⟨hi, hfirst⟩
    refine ⟨hi, Binary64.equals_self (hnum b (List.mem_of_getElem? hi)), fun j c hj hc => ?_⟩
    refine (hfirst j c hj hc).imp_right fun ⟨heq, hij⟩ => ⟨?_, hij⟩
    rw [compareOn, heq]
    exact Std.ReflCmp.compare_self

/-- Buckets out of order, with two of one bound, both zeros, and none for infinity. -/
def mixedBuckets : Histogram Binary64 where
  sampleCount := 9
  sampleSum := .zero
  buckets := [⟨(2 : Nat), 5⟩, ⟨.zero, 1⟩, ⟨.negZero, 3⟩, ⟨(2 : Nat), 7⟩, ⟨.negZero, 4⟩]

/-- One bucket is left of each bound, and all samples are in the one that is added. -/
theorem normalize_keeps_bounds_mixedBuckets :
    mixedBuckets.Ordered ∧ mixedBuckets.normalize.Increasing ∧
      mixedBuckets.normalize.buckets = [⟨.negZero, 3⟩, ⟨(2 : Nat), 5⟩, ⟨.infinity false, 9⟩] ∧
      mixedBuckets.normalize.normalize = mixedBuckets.normalize := by
  have hnum : mixedBuckets.Ordered := by
    unfold Ordered
    decide +kernel
  obtain ⟨hinc, -, -, -, -, -, hagain⟩ := normalize_keeps_bounds hnum
  exact ⟨hnum, hinc, by decide +kernel, hagain⟩

end Histogram
end MetricGateway
