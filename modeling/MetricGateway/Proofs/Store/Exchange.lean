import MetricGateway.Proofs.Exposition.Protobuf
import MetricGateway.Proofs.Store.Invariant

/-!
# Stores of what was read

What a reader gives can be exchanged (`Family.Exchangeable`): its metrics are of its type, and its bounds and shares are
numbers. Aggregation keeps this (`MetricValue.combine_keeps`), so every family can be exchanged in a store to which only
payloads were pushed (`exchangeable_run`).
-/

namespace MetricGateway

/-- A combined value is of the type of both values, and its bounds are theirs. -/
theorem MetricValue.combine_keeps {policy : AggregationPolicy} {a b v : MetricValue Binary64} {m n : Count}
    (h : a.combine policy m b n = some v) : v.type = a.type ∧ (a.Ordered → b.Ordered → v.Ordered) := by
  cases a <;> cases b <;> cases h
  case histogram.histogram.refl x y =>
    refine ⟨rfl, fun hx hy bucket hb => ?_⟩
    rcases Sorted.mem_unionBy hb with hb | hb | ⟨c, hc, d, -, -, he⟩
    · exact hx bucket hb
    · exact hy bucket hb
    · cases he
      exact hx c hc
  all_goals exact ⟨rfl, fun _ _ => trivial⟩

namespace Family.Exchangeable

theorem prepare {s : Store} {injected : List Label} {f g : Family} (hf : f.Exchangeable)
    (h : s.prepare injected f = .ok g) : g.Exchangeable := by
  have hmem : ∀ m ∈ g.metrics, ∃ m₀ ∈ f.metrics, m.value = m₀.value := by
    intro m hm
    obtain ⟨m₀, hm₀, rfl⟩ := Store.mem_metrics_of_prepare h hm
    exact ⟨m₀, hm₀, rfl⟩
  obtain ⟨-, -, rfl⟩ := (s.prepare_eq_ok_iff injected f g).mp h
  refine ⟨hf.named, fun m hm => ?_, fun m hm => ?_⟩
  · obtain ⟨m₀, hm₀, hvalue⟩ := hmem m hm
    rw [hvalue]
    exact hf.typed m₀ hm₀
  · obtain ⟨m₀, hm₀, hvalue⟩ := hmem m hm
    rw [hvalue]
    exact hf.ordered m₀ hm₀

theorem merge {policy : AggregationPolicy} {f g k : Family} (hf : f.Exchangeable) (hg : g.Exchangeable)
    (h : f.merge policy g = .ok k) : k.Exchangeable := by
  obtain ⟨htype, hk⟩ := (merge_eq_ok_iff policy f g k).mp h
  have hvalue : ∀ m ∈ k.metrics, m.value.type = f.type ∧ m.value.Ordered := by
    intro m hm
    rcases mem_merge h hm with hm | hm | ⟨a, ha, b, hb, -, hc⟩
    · exact ⟨hf.typed m hm, hf.ordered m hm⟩
    · exact ⟨(hg.typed m hm).trans htype.symm, hg.ordered m hm⟩
    · obtain ⟨v, hv, rfl⟩ := Option.map_eq_some_iff.mp hc
      obtain ⟨hvtype, hvord⟩ := MetricValue.combine_keeps hv
      exact ⟨hvtype.trans (hf.typed a ha), hvord (hf.ordered a ha) (hg.ordered b hb)⟩
  have hname : k.name = f.name := by rw [hk]
  have hktype : k.type = f.type := by rw [hk]
  exact ⟨hname ▸ hf.named, fun m hm => (hvalue m hm).1.trans hktype.symm, fun m hm => (hvalue m hm).2⟩

theorem filter {f : Family} (hf : f.Exchangeable) (p : Metric Binary64 → Bool) :
    ({ f with metrics := f.metrics.filter p } : Family).Exchangeable :=
  ⟨hf.named, fun m hm => hf.typed m (List.mem_filter.mp hm).1, fun m hm => hf.ordered m (List.mem_filter.mp hm).1⟩

end Family.Exchangeable

/-- What an operation reads from its payload can be exchanged. -/
theorem Operation.exchangeable_of_given_eq_nil {op : Operation} (hop : op.given = []) {f : Family}
    (hf : f ∈ op.families) : f.Exchangeable := by
  obtain ⟨format, payload, fs, hr, hf⟩ := Operation.exists_read_of_given_eq_nil hop hf
  exact ((ExpositionFormat.exchangeable_of_read hr).2 f hf).1

namespace Store

/-- Every stored family can be exchanged. -/
def Exchangeable (s : Store) : Prop :=
  ∀ name stored, s.families.get? name = some stored → stored.family.Exchangeable

theorem exchangeable_new (o : StoreOptions) : (new o).Exchangeable := by
  intro name stored h
  cases h

theorem Change.exchangeable {s t : Store} (h : Change Family.Exchangeable s t) (hs : s.Exchangeable) :
    t.Exchangeable := by
  intro name stored ht
  rcases h.stored_cases ht with hold | ⟨injected, f, hf, hg, -⟩ | ⟨injected, f, g, old, hf, hg, -, -, hold, hk, -⟩ |
    ⟨cutoff, old, hold, rfl⟩
  · exact hs name stored hold
  · exact hf.prepare hg
  · exact (hs name old hold).merge (hf.prepare hg) hk
  · exact (hs name old hold).filter _

theorem exchangeable_of_changes {s t : Store} (h : Relation.ReflTransGen (Change Family.Exchangeable) s t)
    (hs : s.Exchangeable) : t.Exchangeable :=
  changes_induction (fun _ _ h => h.exchangeable) h hs

theorem Exchangeable.ingestFamilies {s : Store} (hs : s.Exchangeable) (now : Instant) (injected : List Label)
    {fs : List Family} (hfs : ∀ f ∈ fs, f.Exchangeable) : (s.ingestFamilies now injected fs).1.Exchangeable :=
  exchangeable_of_changes (changes_ingestFamilies s now injected fs hfs) hs

theorem exchangeable_run (o : StoreOptions) (ops : List Operation) (hops : ∀ op ∈ ops, op.given = []) :
    ((new o).run ops).Exchangeable :=
  run_induction (fun _ _ h => h.exchangeable) (exchangeable_new o) ops
    fun op hop _ hf => Operation.exchangeable_of_given_eq_nil (hops op hop) hf

end Store
end MetricGateway
