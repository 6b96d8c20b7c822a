import MetricGateway.Proofs.Store.Rendering
import MetricGateway.Proofs.Store.Shape
import MetricGateway.Proofs.TextFormat.Series

/-!
# What a scrape exposes

The text rendering of a store to which only payloads were pushed has sample lines that can all be read. Stored metrics
have different labels, and the bounds of a histogram differ, since it is in shape. So two samples of one series come
from a summary that lists a quantile twice, or from two families of which one is named like the sum, the count or the
buckets of the other one (`samples_differ_iff`): each family is checked on its own.
-/

namespace MetricGateway

/-- Each summary of the family lists its quantiles once. -/
def Family.SharesOnce (f : Family) : Prop := ∀ m ∈ f.metrics, m.value.shares.Nodup

instance (f : Family) : Decidable f.SharesOnce := inferInstanceAs (Decidable (∀ m ∈ f.metrics, _))

namespace Store

open TextFormat

/-- The shown families list their series and their bounds once. -/
theorem listsOnce_of_shown (o : StoreOptions) {ops : List Operation} (hops : ∀ op ∈ ops, op.given = []) {f : Family}
    (hf : f ∈ ((new o).run ops).shownFamilies) (hshares : f.SharesOnce) : f.ListsOnce := by
  obtain ⟨⟨name, stored, hstored, rfl⟩, -⟩ := mem_shownFamilies_iff.mp hf
  obtain ⟨-, hwf⟩ := sound_run o ops name stored hstored
  refine ⟨List.pairwise_map.mpr (Sorted.Ascending.ne hwf.ascending), fun m hm => ?_, hshares⟩
  cases hvalue : m.value with
  | histogram h =>
    have hshaped := shaped_run o hops m (mem_metrics_iff.mpr ⟨name, stored, hstored, hm⟩) h hvalue
    refine hshaped.ascending.imp fun {x y} hlt heq => ?_
    have hself : compare y y = .eq := Std.ReflCmp.compare_self
    rw [heq, hself] at hlt
    cases hlt
  | counter | gauge | untyped | summary => exact List.nodup_nil

/-- **When a scrape exposes no series twice.** In every store to which only payloads were pushed, all sample lines of
the text rendering can be read. If no summary lists a quantile twice, no two of them have the same name and the same
labels, exactly if no shown family has a sample under its bare name that another shown family has under its name with a
suffix. -/
theorem samples_differ_iff (o : StoreOptions) {ops : List Operation} (hops : ∀ op ∈ ops, op.given = []) :
    let s := (new o).run ops
    ∃ cs samples, Utf8.decode (s.render .text) = .ok cs ∧ (sampleLinesOf cs).mapM SampleLine.read = .ok samples ∧
      ((∀ f ∈ s.shownFamilies, f.SharesOnce) →
        ((samples.map SampleLine.series).Pairwise (fun a b => ¬ SameSeries a b) ↔
          ∀ f ∈ s.shownFamilies, ∀ g ∈ s.shownFamilies, ¬ f.Meets g)) := by
  intro s
  have hsound : s.Sound := sound_run o ops
  have hwritable : ∀ f ∈ s.shownFamilies, f.Writable := fun f hf =>
    writable_of_shown hsound (exchangeable_run o ops hops) hf
  obtain ⟨samples, hread, hseries⟩ := mapM_read_sampleLinesOf hwritable
  refine ⟨_, samples, ?_, hread, fun hshares => ?_⟩
  · rw [render_text_eq, ← Utf8.encode_flatten, Utf8.decode_encode]
  · rw [hseries]
    exact pairwise_series_iff hwritable (fun f hf => listsOnce_of_shown o hops hf (hshares f hf))
      ((pairwise_shown hsound).imp fun h => String.ne_of_lt h)

/-- A histogram and a summary of one job, and a counter of another job that is named like the count of the
histogram. -/
def jobPushes : List Operation := [
  .push 0 [⟨"job", "a"⟩] .text (Utf8.bytesOf (
    "# TYPE x histogram\nx_bucket\x7ble=\"1\"\x7d 1\nx_sum 0.5\nx_count 1\n" ++
    "# TYPE s summary\ns\x7bquantile=\"0.5\"\x7d 1\ns\x7bquantile=\"0.9\"\x7d 2\n")),
  .push 1 [⟨"job", "b"⟩] .text (Utf8.bytesOf "# TYPE x_count counter\nx_count 5\n"),
  .sweep 2]

theorem samples_differ_jobPushes :
    let s := (new { ttl := some 5 }).run jobPushes
    (∀ op ∈ jobPushes, op.given = []) ∧ s.shownFamilies.map Family.name = ["s", "x", "x_count"] ∧
      ∃ cs samples, Utf8.decode (s.render .text) = .ok cs ∧ (sampleLinesOf cs).mapM SampleLine.read = .ok samples ∧
        (samples.map SampleLine.series).Pairwise fun a b => ¬ SameSeries a b := by
  intro s
  have hops : ∀ op ∈ jobPushes, op.given = [] := by decide
  obtain ⟨cs, samples, hcs, hsamples, hiff⟩ := samples_differ_iff { ttl := some 5 } hops
  exact ⟨hops, by decide +kernel, cs, samples, hcs, hsamples, (hiff (by decide +kernel)).mpr (by decide +kernel)⟩

/-- The count of a histogram and a counter of its name, both without labels, are one series. -/
theorem not_samples_differ_suffixedPushes :
    let s := (new {}).run suffixedPushes
    let lines := ["x_bucket\x7ble=\"1\"\x7d 1", "x_bucket\x7ble=\"+Inf\"\x7d 1", "x_sum 0.5", "x_count 1", "x_count 5"]
    (∀ op ∈ suffixedPushes, op.given = []) ∧
      ∃ cs samples, Utf8.decode (s.render .text) = .ok cs ∧ sampleLinesOf cs = lines.map String.toList ∧
        (sampleLinesOf cs).mapM SampleLine.read = .ok samples ∧
        ¬ (samples.map SampleLine.series).Pairwise fun a b => ¬ SameSeries a b := by
  intro s lines
  let cs :=
    ("# TYPE x histogram\n" ++ "\n".intercalate (lines.take 4) ++ "\n# TYPE x_count counter\nx_count 5\n").toList
  have hlines : sampleLinesOf cs = lines.map String.toList := by decide +kernel
  have hread : ((lines.map String.toList).mapM SampleLine.read).toOption.map (List.map SampleLine.series) =
      some [("x_bucket", [⟨"le", "1"⟩]), ("x_bucket", [⟨"le", "+Inf"⟩]), ("x_sum", []), ("x_count", []),
        ("x_count", [])] := by decide +kernel
  obtain ⟨samples, hsamples, hseries⟩ := Option.map_eq_some_iff.mp hread
  have hok : (lines.map String.toList).mapM SampleLine.read = .ok samples := by
    revert hsamples
    cases (lines.map String.toList).mapM SampleLine.read with
    | error => nofun
    | ok => exact fun h => congrArg Except.ok (Option.some.inj h)
  refine ⟨by decide, cs, samples, by decide +kernel, hlines, by rw [hlines, hok], ?_⟩
  rw [hseries]
  decide

end Store
end MetricGateway
