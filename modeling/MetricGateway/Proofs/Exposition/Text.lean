import MetricGateway.Proofs.TextFormat.Exchange
import MetricGateway.Proofs.TextFormat.Families

/-!
# Text loses nothing that text can say

A family that was read from a text can be written as a text again, which is read as exactly this family
(`read_text_of_read`), if its name and its labels are such that a sample line can bear them: readers do not check the
names of samples.
-/

namespace MetricGateway

/-- What was read from a text is written with its own words. -/
theorem Family.Textual.printed_eq {f : Family} (hf : f.Textual) : f.printed = f.plain := by
  have hreread : f.reread = f := Family.reread_eq_self hf.reread
  have hrounded : ∀ m ∈ f.metrics, m.value.normalize.Rounded := by
    intro m hm
    have hnormal : m.value.normalize = m.value := congrArg Metric.value (hf.reread m hm)
    rw [hnormal]
    exact hf.rounded m hm
  rw [(Family.printed_eq_iff f).mpr ⟨hf.help, hrounded⟩, hreread]

theorem Family.Textual.writable {f : Family} (hf : f.Textual) (hne : f.metrics ≠ [])
    (hname : isMetricName f.name = true)
    (hbound : f.type = .histogram → ∀ m ∈ f.metrics, ∀ l ∈ m.labels.toList, l.name ≠ boundLabel)
    (hquantile : f.type = .summary → ∀ m ∈ f.metrics, ∀ l ∈ m.labels.toList, l.name ≠ quantileLabel) :
    f.Writable where
  name := hname
  typed := hf.exchangeable.typed
  writable m hm :=
    { spelled := hf.spelled m hm
      ordered := hf.exchangeable.ordered m hm
      ne_boundLabel := fun h => hbound ((hf.exchangeable.typed m hm).symm.trans h) m hm
      ne_quantileLabel := fun h => hquantile ((hf.exchangeable.typed m hm).symm.trans h) m hm }
  nonempty := hne
  nodup := hf.nodup

namespace ExpositionFormat

theorem text_encode_eq {f : Family} (hne : f.metrics ≠ []) :
    text.encode f = .ok ((TextFormat.familyLines f).flatMap Utf8.encode) := by
  have hnonempty : f.metrics.isEmpty = false := by simpa using hne
  rw [encode, if_neg (by simp [hnonempty]), List.flatMap]
  rfl

/-- **Text loses nothing that text can say.** The family that is read is the family that was written, except that a text
has only one word for every NaN. -/
theorem read_text_of_read {payload : List UInt8} {fs : List Family} (h : text.read payload = .ok fs) {f : Family}
    (hf : f ∈ fs) (hname : isMetricName f.name = true)
    (hbound : f.type = .histogram → ∀ m ∈ f.metrics, ∀ l ∈ m.labels.toList, l.name ≠ boundLabel)
    (hquantile : f.type = .summary → ∀ m ∈ f.metrics, ∀ l ∈ m.labels.toList, l.name ≠ quantileLabel) :
    ∃ bytes, text.encode f = .ok bytes ∧ text.read bytes = .ok [f.plain] := by
  obtain ⟨htextual, hne⟩ := (TextFormat.textual_of_read h).2 f hf
  have hwritable := htextual.writable hne hname hbound hquantile
  refine ⟨_, text_encode_eq hne, ?_⟩
  have hread := TextFormat.read_flatMap_familyLines (show ∀ g ∈ [f], g.Writable by simpa using hwritable) (by simp)
    (by simpa using f.not_takes_self)
  rw [List.flatMap_singleton, List.map_singleton, htextual.printed_eq] at hread
  exact hread

/-- A summary whose name ends like that of a sample, with escapes in its help and in a label. -/
def escapedText : List UInt8 :=
  Utf8.bytesOf <| "#HELP t_sum a\\\\b\\n \n# TYPE t_sum summary\nt_sum\x7bquantile=\"0.5\", " ++
    "p=\"\\\"\\n\" \x7d nan 7\nt_sum_sum\x7bp=\"\\\"\\n\",\x7d -0e1\n t_sum_count\x7bp=\"\\\"\\n\"\x7d 3.9"

/-- The family of the text. -/
def escapedFamily : Family where
  name := "t_sum"
  help := some "a\\b\n"
  type := .summary
  metrics := [{
    labels := LabelSet.empty.insert ⟨"p", "\"\n"⟩
    value := .summary ⟨3, .ofMagnitude true 0, [⟨.ofMagnitude false 0x3fe0000000000000, .nan false⟩]⟩ }]

theorem read_text_of_read_escapedText :
    ∃ bytes, text.encode escapedFamily = .ok bytes ∧ text.read bytes = .ok [escapedFamily] := by
  have hread : text.read escapedText = .ok [escapedFamily] := by decide +kernel
  have hplain : escapedFamily.plain = escapedFamily := by decide +kernel
  obtain ⟨bytes, henc, hback⟩ := read_text_of_read hread List.mem_cons_self (by decide) nofun (by decide)
  exact ⟨bytes, henc, hplain ▸ hback⟩

end ExpositionFormat
end MetricGateway
