import MetricGateway.Proofs.Aggregation.Grouping
import MetricGateway.Proofs.Metric.Shape

/-!
# Histograms add up

Histograms with strictly ascending bounds add up to one that has the bounds of all of them, strictly ascending as well,
and whose counts are totals: for each bound over the buckets with this bound, and for the samples over all histograms
(`Histogram.AddsUp`). One histogram adds up to itself (`Histogram.addsUp_singleton`) and combining two sums adds up both
lists (`Histogram.AddsUp.combine`), so every grouping of any order gives the same counts (`histograms_add_up`).
-/

namespace MetricGateway

/-- The histogram that a value is, if it is one. -/
def MetricValue.histogram? : MetricValue Binary64 → Option (Histogram Binary64)
  | histogram h => some h
  | _ => none

namespace Histogram

/-- The counts of the buckets with the given bound. -/
def countsAt (x : Binary64) (hs : List (Histogram Binary64)) : List Count :=
  ((hs.flatMap buckets).filter (·.upperBound = x)).map Bucket.cumulativeCount

/-- The bounds of `h` are those of the histograms `hs`, strictly ascending, and its counts are their totals. -/
structure AddsUp (hs : List (Histogram Binary64)) (h : Histogram Binary64) : Prop where
  ascending : Sorted.Ascending Bucket.upperBound h.buckets
  mem_bounds_iff : ∀ x, x ∈ h.bounds ↔ ∃ k ∈ hs, x ∈ k.bounds
  count : ∀ b ∈ h.buckets, b.cumulativeCount = Count.total (countsAt b.upperBound hs)
  sampleCount : h.sampleCount = Count.total (hs.map Histogram.sampleCount)

theorem countsAt_append (x : Binary64) (hs ks : List (Histogram Binary64)) :
    countsAt x (hs ++ ks) = countsAt x hs ++ countsAt x ks := by simp [countsAt]

theorem countsAt_eq_nil {x : Binary64} {hs : List (Histogram Binary64)} (h : ∀ k ∈ hs, x ∉ k.bounds) :
    countsAt x hs = [] := by
  refine List.map_eq_nil_iff.mpr (List.filter_eq_nil_iff.mpr fun b hb he => ?_)
  obtain ⟨k, hk, hb⟩ := List.mem_flatMap.mp hb
  exact h k hk (List.mem_map.mpr ⟨b, hb, of_decide_eq_true he⟩)

/-- Where bounds strictly ascend, one bucket has the count of its bound. -/
theorem countsAt_singleton {h : Histogram Binary64} (hasc : Sorted.Ascending Bucket.upperBound h.buckets)
    {b : Bucket Binary64} (hb : b ∈ h.buckets) : countsAt b.upperBound [h] = [b.cumulativeCount] := by
  obtain ⟨front, rest, hsplit⟩ := List.append_of_mem hb
  have hne := hasc.ne
  rw [hsplit] at hne
  obtain ⟨-, hrest, hfront⟩ := List.pairwise_append.mp hne
  have hbehind := (List.pairwise_cons.mp hrest).1
  have hnone : front.filter (·.upperBound = b.upperBound) = [] :=
    List.filter_eq_nil_iff.mpr fun a ha => by simpa using hfront a ha b List.mem_cons_self
  have hnone' : rest.filter (·.upperBound = b.upperBound) = [] :=
    List.filter_eq_nil_iff.mpr fun a ha => by simpa using (hbehind a ha).symm
  simp [countsAt, hsplit, hnone, hnone']

theorem addsUp_singleton {h : Histogram Binary64} (hasc : Sorted.Ascending Bucket.upperBound h.buckets) :
    AddsUp [h] h where
  ascending := hasc
  mem_bounds_iff x := by simp
  count b hb := by rw [countsAt_singleton hasc hb, Count.total_singleton]
  sampleCount := (Count.total_singleton _).symm

section Sums

variable {hs ks : List (Histogram Binary64)} {a b : Histogram Binary64}

theorem AddsUp.countsAt_of_not_mem (ha : AddsUp hs a) {x : Binary64} (hx : x ∉ a.bounds) : countsAt x hs = [] :=
  countsAt_eq_nil fun k hk hmem => hx ((ha.mem_bounds_iff x).mpr ⟨k, hk, hmem⟩)

/-- **Sums are combined into sums.** -/
theorem AddsUp.combine (ha : AddsUp hs a) (hb : AddsUp ks b) : AddsUp (hs ++ ks) (a.combine b) := by
  have hmiss : ∀ {k : Histogram Binary64} {x : Binary64}, (∀ c ∈ k.buckets, c.upperBound ≠ x) → x ∉ k.bounds := by
    intro k x h hx
    obtain ⟨c, hc, rfl⟩ := List.mem_map.mp hx
    exact h c hc rfl
  constructor
  · exact ascending_combine ha.ascending hb.ascending
  · intro x
    rw [Histogram.mem_bounds_combine_iff, ha.mem_bounds_iff, hb.mem_bounds_iff]
    simp only [List.mem_append, or_and_right, exists_or]
  · intro c hc
    rw [countsAt_append, Count.total_append]
    rcases (Sorted.mem_unionBy_iff (fun _ _ _ => Bucket.upperBound_of_combine) ha.ascending hb.ascending).mp hc with
      ⟨hc, hnone⟩ | ⟨hc, hnone⟩ | ⟨d, hd, e, he, hbound, heq⟩
    · rw [hb.countsAt_of_not_mem (hmiss hnone), ← Count.total_append, List.append_nil]
      exact ha.count c hc
    · rw [ha.countsAt_of_not_mem (hmiss hnone), ← Count.total_append, List.nil_append]
      exact hb.count c hc
    · cases heq
      show Count.add d.cumulativeCount e.cumulativeCount =
        Count.add (Count.total (countsAt d.upperBound hs)) (Count.total (countsAt d.upperBound ks))
      rw [ha.count d hd, hb.count e he, hbound]
  · show Count.add a.sampleCount b.sampleCount = _
    rw [List.map_append, Count.total_append, ha.sampleCount, hb.sampleCount]

theorem AddsUp.perm (ha : AddsUp hs a) (h : hs.Perm ks) : AddsUp ks a where
  ascending := ha.ascending
  mem_bounds_iff x := by simp only [ha.mem_bounds_iff, h.mem_iff]
  count c hc := by
    rw [ha.count c hc]
    exact Count.total_perm (((h.flatMap_right _).filter _).map _)
  sampleCount := by
    rw [ha.sampleCount]
    exact Count.total_perm (h.map _)

/-- Histograms have only one sum, but for the sum of the samples. -/
theorem AddsUp.unique (ha : AddsUp hs a) (hb : AddsUp hs b) :
    a.buckets = b.buckets ∧ a.sampleCount = b.sampleCount := by
  refine ⟨?_, ha.sampleCount.trans hb.sampleCount.symm⟩
  have hsub : ∀ {a b : Histogram Binary64}, AddsUp hs a → AddsUp hs b → ∀ c ∈ a.buckets, c ∈ b.buckets := by
    intro a b ha hb c hc
    obtain ⟨d, hd, hbound⟩ := List.mem_map.mp
      ((hb.mem_bounds_iff c.upperBound).mpr ((ha.mem_bounds_iff _).mp (List.mem_map_of_mem hc)))
    have hcount : d.cumulativeCount = c.cumulativeCount := by rw [ha.count c hc, hb.count d hd, hbound]
    obtain ⟨bound, count⟩ := d
    cases hbound
    cases hcount
    exact hd
  have hperm : a.buckets.Perm b.buckets := by
    refine (List.perm_ext_iff_of_nodup ?_ ?_).mpr fun c => ⟨hsub ha hb c, hsub hb ha c⟩
    · exact ha.ascending.ne.imp fun h he => h (congrArg _ he)
    · exact hb.ascending.ne.imp fun h he => h (congrArg _ he)
  refine hperm.eq_of_pairwise (fun c d _ _ hcd hdc => ?_) ha.ascending hb.ascending
  rw [Std.OrientedCmp.gt_of_lt hcd] at hdc
  cases hdc

end Sums
end Histogram

/-! ## Metrics -/

/-- The histograms among the values of metrics. -/
def histogramsOf (ms : List (Metric Binary64)) : List (Histogram Binary64) := ms.filterMap fun m => m.value.histogram?

/-- Every grouping of histograms with strictly ascending bounds gives their sum. -/
theorem exists_addsUp (policy : AggregationPolicy) {g : Grouping (Metric Binary64)}
    (hg : ∀ m ∈ g.members, ∃ h, m.value = .histogram h ∧ Sorted.Ascending Bucket.upperBound h.buckets) :
    ∃ m, g.combined policy = some m ∧ ∃ h, m.value = .histogram h ∧ h.AddsUp (histogramsOf g.members) ∧
      m.observations = Count.total (g.members.map Metric.observations) := by
  refine Grouping.exists_combined (R := fun ms m => ∃ h, m.value = .histogram h ∧ h.AddsUp (histogramsOf ms) ∧
    m.observations = Count.total (ms.map Metric.observations)) (fun m hm => ?_) ?_
  · obtain ⟨h, hvalue, hasc⟩ := hg m hm
    have hone : histogramsOf [m] = [h] := by simp [histogramsOf, hvalue, MetricValue.histogram?]
    exact ⟨h, hvalue, hone ▸ Histogram.addsUp_singleton hasc, (Count.total_singleton _).symm⟩
  · rintro ms ns a b ⟨h, hh, hadds, hobs⟩ ⟨k, hk, kadds, kobs⟩
    refine ⟨_, Metric.combine_of_histograms policy hh hk, h.combine k, rfl, ?_, ?_⟩
    · rw [histogramsOf, List.filterMap_append]
      exact hadds.combine kadds
    · show Count.add a.observations b.observations = _
      rw [List.map_append, Count.total_append, hobs, kobs]

/-- **Histograms add up in any order.** Let all members of a grouping be histograms with strictly ascending bounds.
Combining them gives a histogram with the bounds of all of them in strictly ascending order. Its count of each bound is
the exact sum of the counts of this bound, and its numbers of samples and of observations are the exact sums of theirs,
each cut off at the largest count. Every other grouping of the same members in any order gives the same buckets and the
same numbers. -/
theorem histograms_add_up (policy : AggregationPolicy) {g : Grouping (Metric Binary64)}
    (hg : ∀ m ∈ g.members, ∃ h, m.value = .histogram h ∧ Sorted.Ascending Bucket.upperBound h.buckets) :
    ∃ m h, g.combined policy = some m ∧ m.value = .histogram h ∧ h.AddsUp (histogramsOf g.members) ∧
      m.observations = Count.total (g.members.map Metric.observations) ∧
      ∀ g' : Grouping (Metric Binary64), g'.members.Perm g.members →
        ∃ m' h', g'.combined policy = some m' ∧ m'.value = .histogram h' ∧ h'.buckets = h.buckets ∧
          h'.sampleCount = h.sampleCount ∧ m'.observations = m.observations := by
  obtain ⟨m, hm, h, hh, hadds, hobs⟩ := exists_addsUp policy hg
  refine ⟨m, h, hm, hh, hadds, hobs, fun g' hperm => ?_⟩
  obtain ⟨m', hm', h', hh', hadds', hobs'⟩ := exists_addsUp policy fun n hn => hg n (hperm.mem_iff.mp hn)
  obtain ⟨hbuckets, hcount⟩ := (hadds'.perm (hperm.filterMap _)).unique hadds
  refine ⟨m', h', hm', hh', hbuckets, hcount, ?_⟩
  rw [hobs', hobs]
  exact Count.total_perm (hperm.map _)

/-- A histogram of the series without labels. -/
def latencies (samples : Count) (buckets : List (Bucket Binary64)) : Metric Binary64 :=
  { labels := .empty, value := .histogram ⟨samples, .zero, buckets⟩ }

/-- Three histograms whose samples exceed the largest count once two of them are combined. -/
def busyLatencies : Grouping (Metric Binary64) :=
  .pair (.one (latencies 0xfffffffffffffffe [⟨(1 : Nat), 0xfffffffffffffffe⟩, ⟨.infinity false, 0xfffffffffffffffe⟩]))
    (.pair (.one (latencies 4 [⟨(2 : Nat), 3⟩, ⟨.infinity false, 4⟩]))
      (.one (latencies 2 [⟨(1 : Nat), 1⟩, ⟨(2 : Nat), 1⟩, ⟨.infinity false, 2⟩])))

theorem histograms_add_up_busyLatencies :
    (∀ m ∈ busyLatencies.members, ∃ h, m.value = .histogram h ∧ Sorted.Ascending Bucket.upperBound h.buckets) ∧
      ∃ m h, busyLatencies.combined {} = some m ∧ m.value = .histogram h ∧ h.sampleCount = 0xffffffffffffffff ∧
        m.observations = 3 ∧ ((2 : Nat) : Binary64) ∈ h.bounds ∧
        ∀ b ∈ h.buckets, b.upperBound = (2 : Nat) → b.cumulativeCount = 4 := by
  have hmembers : ∀ m ∈ busyLatencies.members,
      ∃ h, m.value = .histogram h ∧ Sorted.Ascending Bucket.upperBound h.buckets := by
    intro m hm
    simp only [busyLatencies, Grouping.members, List.cons_append, List.nil_append, List.mem_cons, List.not_mem_nil,
      or_false] at hm
    rcases hm with rfl | rfl | rfl <;> exact ⟨_, rfl, by decide +kernel⟩
  obtain ⟨m, h, hm, hh, hadds, hobs, -⟩ := histograms_add_up {} hmembers
  refine ⟨hmembers, m, h, hm, hh, ?_, ?_, ?_, fun b hb hbound => ?_⟩
  · rw [hadds.sampleCount]
    decide
  · rw [hobs]
    decide
  · rw [hadds.mem_bounds_iff]
    decide +kernel
  · rw [hadds.count b hb, hbound]
    decide +kernel

end MetricGateway
