import MetricGateway.Proofs.Aggregation.Extremes
import MetricGateway.Proofs.Store.Arrivals

/-!
# Gauges that keep an extreme

Under the rules `max` and `min` the store holds of a series the extreme of the values that arrived behind the last NaN
(`keeps_extreme`). A NaN between two numbers makes it forget what came before (`forgets_before_nan`).
-/

namespace MetricGateway

/-- Gauges that arrive one after the other leave what the rule keeps of their values. -/
theorem Ledger.kept_foldl_joined {policy : AggregationPolicy} (hrule : policy.gauge.IsExtreme)
    {ms : List (Metric Binary64)} {vs : List Binary64} (h : ms.map Metric.value = vs.map .gauge) (hne : vs ≠ []) :
    ∃ m w, ms.foldl (joined policy) none = some m ∧ m.value = .gauge w ∧ policy.gauge.Kept vs w := by
  induction vs using List.reverseRecOn generalizing ms with
  | nil => exact absurd rfl hne
  | append_singleton vs v ih =>
    rw [List.map_append, List.map_eq_append_iff] at h
    obtain ⟨front, last, rfl, hfront, hlast⟩ := h
    obtain ⟨n, hn, rfl⟩ : ∃ n : Metric Binary64, n.value = .gauge v ∧ last = [n] := by
      obtain ⟨n, rfl, hn⟩ := List.map_eq_singleton_iff.mp hlast
      exact ⟨n, hn, rfl⟩
    rw [List.foldl_append]
    by_cases hvs : vs = []
    · subst hvs
      rw [List.map_eq_nil_iff.mp hfront]
      exact ⟨n, v, rfl, hn, GaugeRule.kept_singleton hrule v⟩
    · obtain ⟨m, w, hm, hw, hkept⟩ := ih hfront hvs
      rw [hm]
      refine ⟨⟨m.labels, .gauge (policy.gauge.apply w m.observations v n.observations),
        Count.add m.observations n.observations⟩, _, ?_, rfl, GaugeRule.kept_concat hrule hkept v _ _⟩
      show m.combine policy n = _
      rw [Metric.combine, hw, hn]
      rfl

namespace Store

/-- **What a gauge with an extreme rule keeps.** Let a series be absent from a store in any state that it reaches, and
let the values `vs` arrive for it in a run without sweeps, in a family whose rule is `max` or `min`. The store holds the
last one if it is a NaN, and otherwise one of the values behind the last NaN that none of these surpasses. So if there
is no NaN among them, no value surpasses it. In general none does exactly if the last one is a NaN or each of them is
reached by a value behind the last NaN. -/
theorem keeps_extreme (o : StoreOptions) (before : List Operation) {ops : List Operation}
    (hops : ∀ op ∈ ops, op.isSweep = false) {name : String} {labels : LabelSet} {vs : List Binary64}
    (hnew : ((new o).run before).series? name labels = none)
    (harrivals : (((new o).run before).arrivals name labels ops).map Metric.value = vs.map .gauge) (hne : vs ≠ [])
    {head : Heading} (hhead : ((new o).run (before ++ ops)).heading? name = some head)
    (hrule : head.policy.gauge = .max ∨ head.policy.gauge = .min) :
    ∃ m w, ((new o).run (before ++ ops)).series? name labels = some m ∧ m.value = .gauge w ∧
      head.policy.gauge.Kept vs w ∧
      ((∀ v ∈ vs, v.isNaN = false) → ∀ v ∈ vs, ¬ head.policy.gauge.Surpasses v w) ∧
      ((∀ v ∈ vs, ¬ head.policy.gauge.Surpasses v w) ↔
        behindNaN vs = [] ∨ ∀ v ∈ vs, ∃ u ∈ behindNaN vs, ¬ head.policy.gauge.Surpasses v u) := by
  have hrun : (new o).run (before ++ ops) = ((new o).run before).run ops := List.foldl_append
  have hpolicy : ∀ head', (((new o).run before).run ops).heading? name = some head' → head'.policy = head.policy := by
    intro head' h
    rw [← hrun, hhead] at h
    cases h
    rfl
  obtain ⟨m, w, hm, hw, hkept⟩ := Ledger.kept_foldl_joined hrule harrivals hne
  have hiff := GaugeRule.Kept.forall_not_surpasses_iff hrule hkept
  refine ⟨m, w, ?_, hw, hkept, fun hnum => hiff.mpr (.inr fun v hv => ?_), hiff⟩
  · rw [hrun, series?_run (sound_run o before) hops name labels hpolicy, hnew]
    exact hm
  · rw [behindNaN_eq_self hnum]
    exact ⟨v, hv, GaugeRule.not_surpasses_self hrule v⟩

/-- A push of the gauge `temp`, of which the maximum is to be kept. -/
def tempPush (sample : String) : Operation :=
  .push 0 [] .text
    (Utf8.bytesOf ("# HELP temp Temperature <gauge:agg:max>\n# TYPE temp gauge\ntemp " ++ sample ++ "\n"))

/-- A temperature. -/
def degrees (n : Nat) : Binary64 := n

/-- Of the values 7, NaN and 9, none surpasses what the rule `max` keeps. -/
theorem keeps_extreme_tempPush :
    let ops := [tempPush "7", tempPush "NaN", tempPush "9"]
    let vs := [degrees 7, .nan false, degrees 9]
    (∀ op ∈ ops, op.isSweep = false) ∧ ((new {}).run [.sweep 0]).series? "temp" .empty = none ∧
      (((new {}).run [.sweep 0]).arrivals "temp" .empty ops).map Metric.value = vs.map .gauge ∧
      ∃ m w, ((new {}).run (.sweep 0 :: ops)).series? "temp" .empty = some m ∧ m.value = .gauge w ∧
        ∀ v ∈ vs, ¬ GaugeRule.max.Surpasses v w := by
  intro ops vs
  have hops : ∀ op ∈ ops, op.isSweep = false := by decide
  have hnew : ((new {}).run [.sweep 0]).series? "temp" .empty = none := by decide +kernel
  have harrivals : (((new {}).run [.sweep 0]).arrivals "temp" .empty ops).map Metric.value = vs.map .gauge := by
    decide +kernel
  have hrule : (((new {}).run ([.sweep 0] ++ ops)).heading? "temp").map (·.policy.gauge) = some .max := by
    decide +kernel
  obtain ⟨head, hhead, hmax⟩ := Option.map_eq_some_iff.mp hrule
  obtain ⟨m, w, hm, hw, -, -, hiff⟩ :=
    keeps_extreme {} [.sweep 0] hops hnew harrivals (by decide) hhead (.inl hmax)
  rw [hmax] at hiff
  have hreached : ∀ v ∈ vs, ∃ u ∈ behindNaN vs, ¬ GaugeRule.max.Surpasses v u := by
    simp only [GaugeRule.Surpasses]
    decide +kernel
  exact ⟨hops, hnew, harrivals, m, w, hm, hw, hiff.mpr (.inr hreached)⟩

/-- Of the values 5, NaN and 3 the rule `max` keeps 3, which 5 surpasses. -/
theorem forgets_before_nan :
    let ops := [tempPush "5", tempPush "NaN", tempPush "3"]
    (∀ op ∈ ops, op.isSweep = false) ∧
      (((new {}).run ops).heading? "temp").map (·.policy.gauge) = some .max ∧
      ((new {}).arrivals "temp" .empty ops).map Metric.value =
        [.gauge (degrees 5), .gauge (.nan false), .gauge (degrees 3)] ∧
      (((new {}).run ops).series? "temp" .empty).map Metric.value = some (.gauge (degrees 3)) ∧
      GaugeRule.max.Surpasses (degrees 5) (degrees 3) := by
  refine ⟨by decide, by decide +kernel, by decide +kernel, by decide +kernel, ?_⟩
  show degrees 3 < degrees 5
  decide +kernel

end Store
end MetricGateway
