import MetricGateway.Proofs.Metric.Cumulative
import MetricGateway.Proofs.Store.Arrivals

/-!
# Cumulative histograms in a store

Where all histograms that arrive for a series are cumulative and have the same bounds, so is the stored one, after any
number of operations and wherever its counts are cut off (`stays_cumulative`).
-/

namespace MetricGateway

/-- The value is a cumulative histogram with the given bounds. -/
def MetricValue.CountsUpTo (xs : List Binary64) (v : MetricValue Binary64) : Prop :=
  ∃ h, v = .histogram h ∧ h.bounds = xs ∧ h.Cumulative

theorem MetricValue.CountsUpTo.combine {xs : List Binary64} (policy : AggregationPolicy) (a b : Metric Binary64)
    (ha : a.value.CountsUpTo xs) (hb : b.value.CountsUpTo xs) :
    ∃ c, a.combine policy b = some c ∧ c.value.CountsUpTo xs := by
  obtain ⟨h, hh, hbounds, hcum⟩ := ha
  obtain ⟨k, hk, hbounds', hcum'⟩ := hb
  have hsame : h.bounds = k.bounds := hbounds.trans hbounds'.symm
  refine ⟨_, Metric.combine_of_histograms policy hh hk, h.combine k, rfl, ?_, ?_⟩
  · exact (Histogram.bounds_combine hsame).trans hbounds
  · exact hcum.combine hcum' hsame

namespace Store

/-- **Histograms with shared bounds stay cumulative.** Let every arrival for a series be a cumulative histogram with the
bounds `xs`. After any number of operations, what is stored of the series is a cumulative histogram with these bounds,
and without sweeps there is one as soon as something has arrived. An increasing list of bounds can be pushed in any
order and without infinity: the readers normalize a histogram, which gives it these bounds and leaves it cumulative. -/
theorem stays_cumulative (o : StoreOptions) {ops : List Operation} {name : String} {labels : LabelSet}
    {xs : List Binary64} (harrivals : ∀ m ∈ (new o).arrivals name labels ops, m.value.CountsUpTo xs) :
    (∀ n m, ((new o).run (ops.take n)).series? name labels = some m → m.value.CountsUpTo xs) ∧
      ((∀ op ∈ ops, op.isSweep = false) → ∀ n,
        (((new o).run (ops.take n)).series? name labels = none ↔ (new o).arrivals name labels (ops.take n) = [])) ∧
      (xs.Pairwise (· < ·) → ∀ h k : Histogram Binary64, k.bounds = xs → k.Cumulative →
        h.sampleCount = k.sampleCount → h.buckets.Perm k.buckets ∨ h.buckets.Perm k.buckets.dropLast →
        h.normalize.bounds = xs ∧ h.normalize.Cumulative) := by
  have hrun : ∀ n, _ := fun n => forall_series?_run MetricValue.CountsUpTo.combine (sound_new o)
    (fun m hm => harrivals m ((prefix_arrivals (new o) name labels (List.take_prefix n ops)).subset hm))
    fun m hm => by cases hm
  refine ⟨fun n => (hrun n).1, fun hops n => ?_, fun hinc h k hbounds hk hcount hperm => ?_⟩
  · have htake : ∀ op ∈ ops.take n, op.isSweep = false := fun op hop => hops op (List.mem_of_mem_take hop)
    exact ((hrun n).2 htake).trans (and_iff_right rfl)
  · subst hbounds
    rw [hk.normalize hinc hcount hperm]
    refine ⟨rfl, hk.rising, ?_⟩
    rw [hcount]
    exact hk.complete

/-- A histogram of `wait` with the bounds 1, 2 and infinity. -/
def waitHistogram (one two all : Count) (sum : Binary64) : Histogram Binary64 :=
  ⟨all, sum, [⟨(1 : Nat), one⟩, ⟨(2 : Nat), two⟩, ⟨.infinity false, all⟩]⟩

/-- Three pushes of `wait`: a text without the bucket of infinity and with the other two in reverse order, a message
with counts that leave room for three more samples, and a family. -/
def waitPushes : List Operation := [
  .push 0 [] .text (Utf8.bytesOf
    "# TYPE wait histogram\nwait_bucket\x7ble=\"2\"\x7d 3\nwait_bucket\x7ble=\"1\"\x7d 1\nwait_count 4\n"),
  .push 1 [] .protobuf (Protobuf.encodeFamily {
    name := "wait"
    type := .histogram
    metrics := [{
      labels := .empty
      value := .histogram (waitHistogram 0xfffffffffffffffa 0xfffffffffffffffc 0xfffffffffffffffc .zero) }] }),
  .pushFamilies 2 [] [{
    name := "wait"
    type := .histogram
    metrics := [{ labels := .empty, value := .histogram (waitHistogram 1 1 2 .zero) }] }]]

theorem stays_cumulative_waitPushes :
    let xs : List Binary64 := [(1 : Nat), (2 : Nat), .infinity false]
    let read : Histogram Binary64 := ⟨4, .zero, [⟨(2 : Nat), 3⟩, ⟨(1 : Nat), 1⟩]⟩
    (∀ m ∈ (new {}).arrivals "wait" .empty waitPushes, m.value.CountsUpTo xs) ∧
      (∃ m, ((new {}).run waitPushes).series? "wait" .empty = some m ∧ m.value.CountsUpTo xs ∧
        m.value = .histogram (waitHistogram 0xfffffffffffffffc 0xffffffffffffffff 0xffffffffffffffff .zero)) ∧
      read.normalize.bounds = xs ∧ read.normalize.Cumulative := by
  intro xs read
  have harrived : ((new {}).arrivals "wait" .empty waitPushes).map Metric.value =
      [.histogram (waitHistogram 1 3 4 .zero),
        .histogram (waitHistogram 0xfffffffffffffffa 0xfffffffffffffffc 0xfffffffffffffffc .zero),
        .histogram (waitHistogram 1 1 2 .zero)] := by decide +kernel
  have hvalue : (((new {}).run waitPushes).series? "wait" .empty).map Metric.value =
      some (.histogram (waitHistogram 0xfffffffffffffffc 0xffffffffffffffff 0xffffffffffffffff .zero)) := by
    decide +kernel
  have hcounts : ∀ m ∈ (new {}).arrivals "wait" .empty waitPushes, m.value.CountsUpTo xs := by
    intro m hm
    have hmem := List.mem_map_of_mem (f := Metric.value) hm
    rw [harrived] at hmem
    simp only [List.mem_cons, List.not_mem_nil, or_false] at hmem
    rcases hmem with h | h | h <;> exact ⟨_, h, rfl, by decide⟩
  obtain ⟨hstored, -, hnormal⟩ := stays_cumulative {} hcounts
  obtain ⟨m, hm, hmvalue⟩ := Option.map_eq_some_iff.mp hvalue
  refine ⟨hcounts, ⟨m, hm, hstored 3 m hm, hmvalue⟩, ?_⟩
  exact hnormal (by decide +kernel) read (waitHistogram 1 3 4 .zero) rfl (by decide) rfl (.inr (.swap ..))

end Store
end MetricGateway
