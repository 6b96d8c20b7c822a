import MetricGateway.Proofs.Exposition.Text
import MetricGateway.Proofs.Store.Run

/-!
# Counts in the text format

A text is written with the counts of a family to the last digit, and read with the counts that doubles stand for
(`Family.counts_printed`). So exactly those counts survive that are the largest one or have at most 53 bits but for
zeros at their end (`counts_survive_iff`); they are the counts of the family itself if its values are in normal form
(`Family.counts_reread`). A count of `2 ^ 53 + 1`, which merging makes of two that survive, does not
(`loses_one_sample`).
-/

namespace MetricGateway

/-- The counts of a value: that of all samples, without a bound, and those of the buckets. -/
def MetricValue.counts : MetricValue Binary64 → List (Option Binary64 × Count)
  | histogram h => (none, h.sampleCount) :: h.buckets.map fun b => (some b.upperBound, b.cumulativeCount)
  | summary s => [(none, s.sampleCount)]
  | _ => []

/-- The counts of a family with the labels of their metrics. -/
def Family.counts (f : Family) : List (LabelSet × Option Binary64 × Count) :=
  f.metrics.flatMap fun m => m.value.counts.map (Prod.mk m.labels)

theorem MetricValue.counts_plain_mapCounts (g : Count → Count) (v : MetricValue Binary64) :
    (v.mapCounts g).plain.counts = v.counts.map (Prod.map id g) := by
  cases v with
  | counter | gauge | untyped | summary => rfl
  | histogram h => simp [mapCounts, plain, counts, Histogram.mapCounts, Histogram.plain, Bucket.mapCount]

/-- What is read of the counts of a family in normal form. -/
theorem Family.counts_printed (f : Family) :
    f.printed.counts = f.reread.counts.map (Prod.map id (Prod.map id Count.reread)) := by
  simp only [counts, printed, reread, List.flatMap_map, List.map_flatMap, Metric.printed, Metric.reread,
    MetricValue.printed, MetricValue.counts_plain_mapCounts, List.map_map]
  rfl

/-- Values in normal form have the counts that are written. -/
theorem Family.counts_reread {f : Family} (h : ∀ m ∈ f.metrics, m.value.normalize = m.value) :
    f.reread.counts = f.counts := by
  simp only [counts, reread, List.flatMap_map]
  refine List.flatMap_congr fun m hm => ?_
  rw [Metric.reread, h m hm]

namespace ExpositionFormat

/-- **Which counts survive the text format.** A family that can be written as text is read back as one family, whose
counts are the counts of the normal form, in their order and under their labels and bounds, each as the double next to
it. They are the same counts exactly if each of them is the largest one or a number of at most 53 bits but for zeros at
its end. If the values of the family are in normal form, these are the counts of the family itself. -/
theorem counts_survive_iff {f : Family} (hf : f.Writable) :
    ∃ bytes g, text.encode f = .ok bytes ∧ text.read bytes = .ok [g] ∧
      g.counts = f.reread.counts.map (Prod.map id (Prod.map id Count.reread)) ∧
      (g.counts = f.reread.counts ↔ ∀ labels bound count, (labels, bound, count) ∈ f.reread.counts →
        count.toNat = Count.largest ∨ ∃ k j, k < 2 ^ 53 ∧ count.toNat = k * 2 ^ j) ∧
      ((∀ m ∈ f.metrics, m.value.normalize = m.value) → f.reread.counts = f.counts) := by
  have hread := TextFormat.read_flatMap_familyLines (show ∀ g ∈ [f], g.Writable by simpa using hf) (by simp)
    (by simpa using f.not_takes_self)
  rw [List.flatMap_singleton, List.map_singleton] at hread
  refine ⟨_, f.printed, text_encode_eq hf.nonempty, hread, f.counts_printed, ?_, Family.counts_reread⟩
  have hsame : f.printed.counts = f.reread.counts ↔
      ∀ e ∈ f.reread.counts, Prod.map id (Prod.map id Count.reread) e = e := by
    have hmap := List.map_inj_left (l := f.reread.counts) (f := Prod.map id (Prod.map id Count.reread)) (g := id)
    rw [List.map_id] at hmap
    rw [f.counts_printed]
    exact hmap
  rw [hsame]
  refine ⟨fun h labels bound count hmem => ?_, fun h ⟨labels, bound, count⟩ hmem => ?_⟩
  · have hcount : count.reread = count := congrArg (fun e => e.2.2) (h _ hmem)
    exact (Count.rounded_iff_exists count).mp ((Count.rounded_iff count).mpr hcount)
  · have hcount : count.reread = count :=
      (Count.rounded_iff count).mp ((Count.rounded_iff_exists count).mpr (h labels bound count hmem))
    simp [hcount]

/-- A histogram with one bound before infinity. -/
def heldFamily (one all : Count) : Family where
  name := "held"
  type := .histogram
  metrics := [{ labels := .empty, value := .histogram ⟨all, .zero, [⟨(1 : Nat), one⟩, ⟨.infinity false, all⟩]⟩ }]

/-- The counts of the histogram. -/
def heldCounts (one all : Count) : List (LabelSet × Option Binary64 × Count) :=
  [(.empty, none, all), (.empty, some (1 : Nat), one), (.empty, some (.infinity false), all)]

theorem counts_survive_iff_heldFamily :
    (heldFamily 0x1000000000000000 0xffffffffffffffff).Writable ∧
      ∃ bytes g, text.encode (heldFamily 0x1000000000000000 0xffffffffffffffff) = .ok bytes ∧
        text.read bytes = .ok [g] ∧ g.counts = (heldFamily 0x1000000000000000 0xffffffffffffffff).counts ∧
        g.counts = heldCounts 0x1000000000000000 0xffffffffffffffff := by
  have hwritable : (heldFamily 0x1000000000000000 0xffffffffffffffff).Writable := by
    have hnum : ∀ b ∈ [((1 : Nat) : Binary64), .infinity false], b.isNaN = false := by decide +kernel
    refine ⟨by decide, by decide, fun m hm => ?_, by decide, by decide⟩
    cases List.mem_singleton.mp hm
    exact ⟨nofun, fun b hb => hnum _ (List.mem_map_of_mem hb), by decide, by decide⟩
  have hnormal : ∀ m ∈ (heldFamily 0x1000000000000000 0xffffffffffffffff).metrics,
      m.value.normalize = m.value := by decide +kernel
  have hcounts : (heldFamily 0x1000000000000000 0xffffffffffffffff).counts =
      heldCounts 0x1000000000000000 0xffffffffffffffff := rfl
  obtain ⟨bytes, g, henc, hread, -, hiff, hown⟩ := counts_survive_iff hwritable
  rw [hown hnormal] at hiff
  have hsurvive : g.counts = (heldFamily 0x1000000000000000 0xffffffffffffffff).counts := by
    refine hiff.mpr fun labels bound count hmem => ?_
    rw [hcounts] at hmem
    simp only [heldCounts, List.mem_cons, Prod.mk.injEq, List.not_mem_nil, or_false] at hmem
    rcases hmem with ⟨-, -, rfl⟩ | ⟨-, -, rfl⟩ | ⟨-, -, rfl⟩
    · exact .inl (by decide)
    · exact .inr ⟨1, 60, by decide, by decide⟩
    · exact .inl (by decide)
  exact ⟨hwritable, bytes, g, henc, hread, hsurvive, hsurvive.trans hcounts⟩

/-- Two pushes of the histogram, of `2 ^ 53` samples and of one. -/
def heldPushes : List Operation := [
  .push 0 [] .text (Utf8.bytesOf ("# TYPE held histogram\nheld_bucket\x7ble=\"1\"\x7d 9007199254740992\n" ++
    "held_sum 0\nheld_count 9007199254740992\n")),
  .push 1 [] .text (Utf8.bytesOf
    "# TYPE held histogram\nheld_bucket\x7ble=\"1\"\x7d 1\nheld_sum 0\nheld_count 1\n")]

/-- The last sample is stored, and it is written, but not read. -/
theorem loses_one_sample :
    ∃ f bytes g, ((Store.new {}).run heldPushes).family? "held" = some f ∧ text.encode f = .ok bytes ∧
      text.read bytes = .ok [g] ∧ f.counts = heldCounts 0x20000000000001 0x20000000000001 ∧
      g.counts = heldCounts 0x20000000000000 0x20000000000000 := by
  let stored := (heldFamily 0x20000000000001 0x20000000000001).metrics.map fun m => { m with observations := 2 }
  have hstored : ((Store.new {}).run heldPushes).family? "held" =
      some { name := "held", type := .histogram, metrics := stored } := by decide +kernel
  have hread : text.read ((TextFormat.familyLines { name := "held", type := .histogram, metrics := stored }).flatMap
      Utf8.encode) = .ok [heldFamily 0x20000000000000 0x20000000000000] := by decide +kernel
  exact ⟨_, _, _, hstored, text_encode_eq (List.cons_ne_nil _ _), hread, by decide +kernel, by decide +kernel⟩

end ExpositionFormat
end MetricGateway
