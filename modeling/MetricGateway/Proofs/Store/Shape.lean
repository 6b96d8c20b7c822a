import MetricGateway.Proofs.Metric.Shape
import MetricGateway.Proofs.Store.Exchange

/-!
# The histograms of a store

What every value has that is pushed, and what combining keeps, every stored value has (`values_run`). So every stored
histogram is in shape if only payloads were pushed: reading normalizes a histogram, and merging combines histograms
(`shaped_run`). The stored bounds increase as numbers unless both zeros are among them, which takes two pushes with
different zeros (`increasing_iff_of_stored`).
-/

namespace MetricGateway.Store

/-- What every pushed value has and combining keeps, every stored value has. -/
theorem values_run {p : MetricValue Binary64 → Prop}
    (hcombine : ∀ policy a b m n v, MetricValue.combine policy a m b n = some v → p a → p b → p v) (o : StoreOptions)
    (ops : List Operation) (hops : ∀ op ∈ ops, ∀ f ∈ op.families, ∀ m ∈ f.metrics, p m.value) :
    ∀ m ∈ ((new o).run ops).metrics, p m.value := by
  refine metrics_run (p := fun m => p m.value) (fun _ _ h => h) ?_ o ops hops
  intro policy a b c hc
  obtain ⟨v, hv, rfl⟩ := Option.map_eq_some_iff.mp hc
  exact hcombine policy _ _ _ _ v hv

/-! ## Histograms -/

/-- Every histogram that is stored by pushes of payloads is in shape. -/
theorem shaped_run (o : StoreOptions) {ops : List Operation} (hops : ∀ op ∈ ops, op.given = []) :
    ∀ m ∈ ((new o).run ops).metrics, ∀ h, m.value = .histogram h → h.Shaped := by
  refine values_run (p := fun v => ∀ h, v = .histogram h → h.Shaped) ?_ o ops ?_
  · intro policy a b m n v hv ha hb h hh
    subst hh
    cases a <;> cases b <;> cases hv
    exact (ha _ rfl).combine (hb _ rfl)
  · intro op hop f hf m hm h hh
    obtain ⟨format, payload, fs, hr, hf⟩ := Operation.exists_read_of_given_eq_nil (hops op hop) hf
    obtain ⟨hex, -, hreread⟩ := (ExpositionFormat.exchangeable_of_read hr).2 f hf
    have hnum : h.Ordered := by simpa [hh, MetricValue.Ordered] using hex.ordered m hm
    have hnormal : h.normalize = h := by
      have hvalue := congrArg Metric.value (hreread m hm)
      rw [Metric.reread, hh] at hvalue
      exact MetricValue.histogram.inj hvalue
    exact hnormal ▸ Histogram.shaped_normalize hnum

/-- A bound that is in no pushed value is in no stored one. -/
theorem not_mem_bounds_run (o : StoreOptions) {ops : List Operation} {x : Binary64}
    (hx : ∀ op ∈ ops, ∀ f ∈ op.families, ∀ m ∈ f.metrics, x ∉ m.value.bounds) :
    ∀ m ∈ ((new o).run ops).metrics, x ∉ m.value.bounds := by
  refine values_run (p := fun v => x ∉ v.bounds) ?_ o ops hx
  intro policy a b m n v hv ha hb
  cases a <;> cases b <;> cases hv
  case histogram.histogram.refl a b =>
    intro hmem
    exact ((Histogram.mem_bounds_combine_iff a b x).mp hmem).elim ha hb
  all_goals exact List.not_mem_nil

/-- **The bounds of stored histograms.** In every store to which only payloads were pushed, the bounds of a histogram
are numbers in strictly ascending total order, and the last one is infinity. They increase as numbers exactly if they do
not include both zeros, so they do in every histogram if no payload brings a bound that is one of the zeros. -/
theorem increasing_iff_of_stored (o : StoreOptions) {ops : List Operation} (hops : ∀ op ∈ ops, op.given = []) :
    (∀ m ∈ ((new o).run ops).metrics, ∀ h, m.value = .histogram h →
        h.Shaped ∧ (h.Increasing ↔ ¬ (Binary64.negZero ∈ h.bounds ∧ Binary64.zero ∈ h.bounds))) ∧
      ∀ z, z = Binary64.negZero ∨ z = Binary64.zero →
        (∀ op ∈ ops, ∀ f ∈ op.families, ∀ m ∈ f.metrics, z ∉ m.value.bounds) →
        ∀ m ∈ ((new o).run ops).metrics, ∀ h, m.value = .histogram h → h.Increasing := by
  have hshaped := shaped_run o hops
  constructor
  · intro m hm h hh
    exact ⟨hshaped m hm h hh, (hshaped m hm h hh).increasing_iff⟩
  · intro z hz hnone m hm h hh
    have hbounds : z ∉ h.bounds := by simpa [hh, MetricValue.bounds] using not_mem_bounds_run o hnone m hm
    apply (hshaped m hm h hh).increasing_iff.mpr
    rintro ⟨hneg, hzero⟩
    rcases hz with rfl | rfl
    · exact hbounds hneg
    · exact hbounds hzero

/-- Two histograms of one series with different bounds, of which one is negative zero. -/
def boundPushes : List Operation := [
  .push 0 [⟨"job", "a"⟩] .text (Utf8.bytesOf ("# TYPE t histogram\n" ++
    "t_bucket\x7ble=\"2\"\x7d 4\nt_bucket\x7ble=\"-0\"\x7d 1\nt_bucket\x7ble=\"0\"\x7d 3\nt_sum 0.5\nt_count 4\n")),
  .push 7 [⟨"job", "a"⟩] .protobuf (Protobuf.encodeFamily {
    name := "t"
    type := .histogram
    metrics := [{ labels := .empty, value := .histogram ⟨5, .zero, [⟨(1 : Nat), 2⟩]⟩ }] }),
  .sweep 8]

/-- What is stored of `boundPushes`. -/
def boundHistogram : Histogram Binary64 :=
  ⟨9, .ofMagnitude false 0x3fe0000000000000, [⟨.negZero, 1⟩, ⟨(1 : Nat), 2⟩, ⟨(2 : Nat), 4⟩, ⟨.infinity false, 9⟩]⟩

theorem increasing_iff_of_stored_boundPushes :
    (∀ op ∈ boundPushes, op.given = []) ∧
      ((new { ttl := some 5 }).run boundPushes).metrics.map Metric.value = [.histogram boundHistogram] ∧
      boundHistogram.Shaped ∧ boundHistogram.Increasing := by
  have hops : ∀ op ∈ boundPushes, op.given = [] := by decide
  have hvalues : ((new { ttl := some 5 }).run boundPushes).metrics.map Metric.value = [.histogram boundHistogram] := by
    decide +kernel
  obtain ⟨m, hm, hvalue⟩ := List.mem_map.mp (hvalues ▸ List.mem_singleton_self (MetricValue.histogram boundHistogram))
  obtain ⟨hshaped, hincreasing⟩ := increasing_iff_of_stored { ttl := some 5 } hops
  refine ⟨hops, hvalues, (hshaped m hm _ hvalue).1, ?_⟩
  exact hincreasing .zero (.inr rfl) (by decide +kernel) m hm _ hvalue

/-- Two histograms of one series whose first bounds are different zeros. -/
def zeroPushes : List Operation := [
  .push 0 [] .text (Utf8.bytesOf "# TYPE t histogram\nt_bucket\x7ble=\"-0\"\x7d 1\nt_sum 0\nt_count 1\n"),
  .push 1 [] .text (Utf8.bytesOf "# TYPE t histogram\nt_bucket\x7ble=\"0\"\x7d 1\nt_sum 0\nt_count 1\n")]

theorem not_increasing_zeroPushes :
    ∃ m ∈ ((new {}).run zeroPushes).metrics, ∃ h, m.value = .histogram h ∧
      h.bounds = [.negZero, .zero, .infinity false] ∧ ¬ h.Increasing := by
  have hvalues : ((new {}).run zeroPushes).metrics.map Metric.value =
      [.histogram ⟨2, .zero, [⟨.negZero, 1⟩, ⟨.zero, 1⟩, ⟨.infinity false, 2⟩]⟩] := by decide +kernel
  obtain ⟨m, hm, hvalue⟩ := List.mem_map.mp (hvalues ▸ List.mem_singleton_self _)
  exact ⟨m, hm, _, hvalue, rfl, by decide⟩

end MetricGateway.Store
