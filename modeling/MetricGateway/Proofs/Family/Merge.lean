import MetricGateway.Proofs.Family.WellFormed

/-!
# Merging two families

Two families of one type merge into the sorted union of their series (`merge_is_sorted_union`): a series that only one
of them has stays as it is, and a series that both have becomes what combining its two metrics gives, which may be
nothing. Families of different types do not merge.
-/

namespace MetricGateway.Family

/-- The metric that a family has for a series. -/
def metric? (f : Family) (labels : LabelSet) : Option (Metric Binary64) :=
  Sorted.lookup? Metric.labels labels f.metrics

/-- In ascending order every metric is the one of its series. -/
theorem mem_metrics_iff {f : Family} (hf : Sorted.Ascending Metric.labels f.metrics) (m : Metric Binary64) :
    m ∈ f.metrics ↔ f.metric? m.labels = some m := by
  rw [metric?, Sorted.lookup?_eq_some_iff hf.ne]
  exact ⟨fun h => ⟨h, rfl⟩, fun h => h.1⟩

section Merge

variable (policy : AggregationPolicy) {existing incoming : Family}
  (hexisting : Sorted.Ascending Metric.labels existing.metrics)
  (hincoming : Sorted.Ascending Metric.labels incoming.metrics)
include hexisting hincoming

/-- **Merging is a sorted union.** Let the series of two families stand in strictly ascending order of their labels. If
the families are of one type they merge, under the name, the help and the type of the existing one, and the series of
the merged family stand in strictly ascending order again. For every label set it has the metric of the family that
alone has one, or what combining both metrics gives, and no other metric. If the families are of different types they do
not merge, and the error names the existing family, its type and the type of the incoming one. -/
theorem merge_is_sorted_union :
    (existing.type = incoming.type → ∃ merged, existing.merge policy incoming = .ok merged ∧
        merged.name = existing.name ∧ merged.help = existing.help ∧ merged.type = existing.type ∧
        Sorted.Ascending Metric.labels merged.metrics ∧
        (∀ labels, merged.metric? labels =
          match existing.metric? labels, incoming.metric? labels with
          | some a, some b => a.combine policy b
          | some a, none => some a
          | none, some b => some b
          | none, none => none) ∧
        ∀ m, m ∈ merged.metrics ↔ merged.metric? m.labels = some m) ∧
      (existing.type ≠ incoming.type →
        existing.merge policy incoming = .error (.typeMismatch existing.name existing.type incoming.type)) := by
  constructor
  · intro htype
    have hkeeps : ∀ a b c : Metric Binary64, a.combine policy b = some c → c.labels = a.labels :=
      fun _ _ _ => Metric.labels_of_combine
    have hasc := Sorted.ascending_unionBy hkeeps hexisting hincoming
    refine ⟨_, (merge_eq_ok_iff ..).mpr ⟨htype, rfl⟩, rfl, rfl, rfl, hasc, fun labels => ?_, mem_metrics_iff hasc⟩
    refine (Sorted.lookup?_unionBy hkeeps hexisting hincoming).trans ?_
    simp only [metric?]
    cases Sorted.lookup? Metric.labels labels existing.metrics <;>
      cases Sorted.lookup? Metric.labels labels incoming.metrics <;> rfl
  · exact fun htype => if_pos htype

end Merge

/-- The label set of a path. -/
def ofPath (path : String) : LabelSet := LabelSet.empty.insert ⟨"path", path⟩

/-- A family of gauges with the given values by path. -/
def loads (values : List (String × MetricValue Binary64)) : Family where
  name := "load"
  type := .gauge
  metrics := values.map fun e => { labels := ofPath e.1, value := e.2 }

/-- Two of the paths are on one side only, and of the other two one cannot be combined. -/
theorem merge_is_sorted_union_loads :
    let existing := loads [("/a", .gauge (1 : Nat)), ("/c", .gauge (3 : Nat)), ("/d", .counter (1 : Nat))]
    let incoming := loads [("/b", .gauge (2 : Nat)), ("/c", .gauge (5 : Nat)), ("/d", .gauge (1 : Nat))]
    Sorted.Ascending Metric.labels existing.metrics ∧ Sorted.Ascending Metric.labels incoming.metrics ∧
      ∃ merged, existing.merge { gauge := .max } incoming = .ok merged ∧
        Sorted.Ascending Metric.labels merged.metrics ∧
        merged.metric? (ofPath "/a") = some { labels := ofPath "/a", value := .gauge (1 : Nat) } ∧
        merged.metric? (ofPath "/b") = some { labels := ofPath "/b", value := .gauge (2 : Nat) } ∧
        merged.metric? (ofPath "/c") = some ⟨ofPath "/c", .gauge (5 : Nat), 2⟩ ∧
        merged.metric? (ofPath "/d") = none := by
  intro existing incoming
  have hexisting : Sorted.Ascending Metric.labels existing.metrics := by decide
  have hincoming : Sorted.Ascending Metric.labels incoming.metrics := by decide
  obtain ⟨merged, hmerged, -, -, -, hasc, hmetric, -⟩ :=
    (merge_is_sorted_union { gauge := .max } hexisting hincoming).1 rfl
  refine ⟨hexisting, hincoming, merged, hmerged, hasc, ?_, ?_, ?_, ?_⟩
  all_goals
    rw [hmetric]
    decide +kernel

end MetricGateway.Family
