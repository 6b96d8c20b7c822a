import MetricGateway.Family
import MetricGateway.Proofs.Family.Validation
import MetricGateway.Proofs.Label.Canonical
import MetricGateway.Proofs.Outcome

/-!
# Well-formed families

A stored family has a name that can be written, its metrics stand in strictly ascending order of their label sets, and
no label has a name that is ignored, cannot be written, or is reserved in families of its type (`Family.WellFormed`,
`LabelSet.Storable`).

- A family that passed the checks of a push and has a metric is well-formed (`Store.wellFormed_of_prepare`).
- Two well-formed families of one type merge into one (`Family.WellFormed.merge`), and every metric of the merged
  family is one of theirs or combines one of each (`Family.mem_merge`).
- Dropping metrics keeps a family well-formed (`Family.WellFormed.filter`).
-/

namespace MetricGateway

/-- A label set that a family of a type may have in a store. -/
structure LabelSet.Storable (s : LabelSet) (type : MetricType) (ignored : IgnoredNames) : Prop where
  increasing : s.toList.Pairwise fun a b => a.name < b.name
  valid : ∀ l ∈ s.toList, isLabelName l.name = true
  unreserved : ∀ l ∈ s.toList, ¬ ['_', '_'] <+: l.name.toList
  ne_boundLabel : type = .histogram → ∀ l ∈ s.toList, l.name ≠ boundLabel
  ne_quantileLabel : type = .summary → ∀ l ∈ s.toList, l.name ≠ quantileLabel
  notIgnored : ∀ l ∈ s.toList, ignored.contains l.name = false

/-- A family as a store keeps it. -/
structure Family.WellFormed (f : Family) (ignored : IgnoredNames) : Prop where
  name : isMetricName f.name = true
  ascending : f.metrics.Pairwise fun a b => compare a.labels b.labels = .lt
  storable : ∀ m ∈ f.metrics, m.labels.Storable f.type ignored

theorem Metric.labels_of_combine {policy : AggregationPolicy} {a b c : Metric Binary64}
    (h : a.combine policy b = some c) : c.labels = a.labels := by
  obtain ⟨v, -, rfl⟩ := Option.map_eq_some_iff.mp h
  rfl

theorem LabelSet.not_ignored_of_mem_canonical {s : LabelSet} {injected : List Label} {ignored : IgnoredNames}
    {l : Label} (h : l ∈ (s.canonical injected ignored).toList) : ignored.contains l.name = false := by
  have hl := (List.mem_filter.mp h).2
  simpa using hl

/-! ## Prepared families -/

namespace Store

/-- A push prepares a family exactly if it passes both checks under its canonical labels; then its metrics are
sorted. -/
theorem prepare_eq_ok_iff (s : Store) (injected : List Label) (f g : Family) :
    s.prepare injected f = .ok g ↔ (f.canonical injected s.options.ignored).checkReserved = .ok () ∧
      (f.canonical injected s.options.ignored).checkSeries = .ok () ∧
      g = (f.canonical injected s.options.ignored).sortMetrics := by
  unfold Store.prepare
  dsimp only
  constructor
  · intro h
    obtain ⟨_, hr, h⟩ := Outcome.bind_eq_ok_iff.mp h
    obtain ⟨_, hs, h⟩ := Outcome.bind_eq_ok_iff.mp h
    cases h
    exact ⟨hr, hs, rfl⟩
  · rintro ⟨hr, hs, rfl⟩
    rw [hr, hs]
    rfl

/-- The metrics of a prepared family are those of the pushed one under their canonical labels. -/
theorem mem_metrics_of_prepare {s : Store} {injected : List Label} {f g : Family} (h : s.prepare injected f = .ok g)
    {m : Metric Binary64} (hm : m ∈ g.metrics) :
    ∃ m₀ ∈ f.metrics, m = { m₀ with labels := m₀.labels.canonical injected s.options.ignored } := by
  obtain ⟨-, -, rfl⟩ := (s.prepare_eq_ok_iff injected f g).mp h
  obtain ⟨m₀, hm₀, rfl⟩ := List.mem_map.mp (Sorted.mem_sortBy.mp hm)
  exact ⟨m₀, hm₀, rfl⟩

theorem wellFormed_of_prepare {s : Store} {injected : List Label} {f g : Family} (h : s.prepare injected f = .ok g)
    (hne : g.metrics ≠ []) : g.WellFormed s.options.ignored := by
  obtain ⟨hr, hs, rfl⟩ := (s.prepare_eq_ok_iff injected f g).mp h
  have hfree := (Family.checkReserved_eq_ok_iff _).mp hr
  have hnames := ((Family.checkSeries_eq_ok_iff _).mp hs).1
  refine ⟨?_, Sorted.ascending_sortBy (Family.labels_ne_of_checkSeries hs), ?_⟩
  · -- the name is checked with each metric, so one metric is needed here
    obtain ⟨m, hm⟩ := List.exists_mem_of_ne_nil _ hne
    exact ((LabelSet.nameFault?_eq_none_iff _ _).mp (hnames m (Sorted.mem_sortBy.mp hm))).1
  · intro m hm
    have hm' := Sorted.mem_sortBy.mp hm
    have hfree' := fun l hl => (MetricType.reservedProblem?_eq_none_iff _ _).mp (hfree m hm' l hl)
    refine ⟨m.labels.increasing, ((LabelSet.nameFault?_eq_none_iff _ _).mp (hnames m hm')).2,
      fun l hl => (hfree' l hl).1, fun ht l hl hn => (hfree' l hl).2.1 ⟨ht, hn⟩,
      fun ht l hl hn => (hfree' l hl).2.2 ⟨ht, hn⟩, ?_⟩
    obtain ⟨m₀, -, rfl⟩ := List.mem_map.mp hm'
    exact fun l hl => LabelSet.not_ignored_of_mem_canonical hl

end Store

/-! ## Merged families -/

namespace Family

theorem merge_eq_ok_iff (policy : AggregationPolicy) (f g k : Family) :
    f.merge policy g = .ok k ↔ f.type = g.type ∧
      k = { f with
        metrics := Sorted.unionBy (compareOn Metric.labels) (Metric.combine policy) f.metrics g.metrics } := by
  unfold merge
  split
  next h => simp [h]
  next h =>
    have h : f.type = g.type := Decidable.not_not.mp h
    simp [h, eq_comm]

/-- A metric of a merged family is one of either family or combines two of the same series. -/
theorem mem_merge {policy : AggregationPolicy} {f g k : Family} (h : f.merge policy g = .ok k) {m : Metric Binary64}
    (hm : m ∈ k.metrics) :
    m ∈ f.metrics ∨ m ∈ g.metrics ∨
      ∃ a ∈ f.metrics, ∃ b ∈ g.metrics, a.labels = b.labels ∧ a.combine policy b = some m := by
  obtain ⟨-, rfl⟩ := (merge_eq_ok_iff policy f g k).mp h
  exact Sorted.mem_unionBy hm

theorem WellFormed.merge {policy : AggregationPolicy} {ignored : IgnoredNames} {f g k : Family}
    (hf : f.WellFormed ignored) (hg : g.WellFormed ignored) (h : f.merge policy g = .ok k) : k.WellFormed ignored := by
  obtain ⟨htype, hk⟩ := (merge_eq_ok_iff policy f g k).mp h
  refine ⟨?_, ?_, ?_⟩
  · rw [hk]
    exact hf.name
  · rw [hk]
    exact Sorted.ascending_unionBy (fun _ _ _ => Metric.labels_of_combine) hf.ascending hg.ascending
  · have hkf : k.type = f.type := by rw [hk]
    intro m hm
    rw [hkf]
    rcases mem_merge h hm with hm | hm | ⟨a, ha, b, -, -, hc⟩
    · exact hf.storable m hm
    · rw [htype]
      exact hg.storable m hm
    · rw [Metric.labels_of_combine hc]
      exact hf.storable a ha

theorem WellFormed.filter {ignored : IgnoredNames} {f : Family} (hf : f.WellFormed ignored)
    (p : Metric Binary64 → Bool) : ({ f with metrics := f.metrics.filter p } : Family).WellFormed ignored :=
  ⟨hf.name, hf.ascending.filter p, fun m hm => hf.storable m ((List.mem_filter.mp hm).1)⟩

end Family
end MetricGateway
