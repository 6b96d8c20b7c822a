import MetricGateway.Proofs.Binary64.Count
import MetricGateway.Proofs.Metric.Normal

/-!
# What a text keeps of a value

A text has one word for every NaN (`MetricValue.plain`), and its counts are read as doubles
(`MetricValue.mapCounts`). Neither moves a bucket or a quantile, so both commute with bringing a value into its normal
form (`normalize_plain`, `normalize_mapCounts`). Nothing but its NaNs changes in a value if all its counts stand for
doubles, and only then (`printed_eq_plain_iff`).
-/

namespace MetricGateway

theorem Binary64.plain_plain (x : Binary64) : x.plain.plain = x.plain := by
  unfold plain
  split
  · rfl
  · rfl

/-! ## Histograms -/

section Histograms

variable (f : Count → Count)

def Bucket.mapCount (b : Bucket Binary64) : Bucket Binary64 := { b with cumulativeCount := f b.cumulativeCount }

namespace Histogram

def plain (h : Histogram Binary64) : Histogram Binary64 := { h with sampleSum := h.sampleSum.plain }

def mapCounts (h : Histogram Binary64) : Histogram Binary64 :=
  { h with sampleCount := f h.sampleCount, buckets := h.buckets.map (Bucket.mapCount f) }

@[simp] theorem plain_mk (count : Count) (sum : Binary64) (bs : List (Bucket Binary64)) :
    plain ⟨count, sum, bs⟩ = ⟨count, sum.plain, bs⟩ := rfl

@[simp] theorem mapCounts_mk (count : Count) (sum : Binary64) (bs : List (Bucket Binary64)) :
    mapCounts f ⟨count, sum, bs⟩ = ⟨f count, sum, bs.map (Bucket.mapCount f)⟩ := rfl

/-- The counts of a histogram stand for doubles. -/
def Rounded (h : Histogram Binary64) : Prop := h.sampleCount.Rounded ∧ ∀ b ∈ h.buckets, b.cumulativeCount.Rounded

instance (h : Histogram Binary64) : Decidable h.Rounded := inferInstanceAs (Decidable (_ ∧ _))

theorem Rounded.normalize {h : Histogram Binary64} (hr : h.Rounded) : h.normalize.Rounded := by
  refine ⟨hr.1, fun b hb => ?_⟩
  unfold Histogram.normalize withInfinite at hb
  dsimp only at hb
  split at hb
  · exact hr.2 b (Sorted.mem_sortBy.mp ((sublist_distinctBounds _).subset hb))
  · rcases List.mem_append.mp hb with hb | hb
    · exact hr.2 b (Sorted.mem_sortBy.mp ((sublist_distinctBounds _).subset hb))
    · cases List.mem_singleton.mp hb
      exact hr.1

theorem dropRepeatedBounds_map (last : Bucket Binary64) (bs : List (Bucket Binary64)) :
    dropRepeatedBounds (last.mapCount f) (bs.map (Bucket.mapCount f)) =
      (dropRepeatedBounds last bs).map (Bucket.mapCount f) := by
  induction bs generalizing last with
  | nil => rfl
  | cons b bs ih =>
    have hsame : (last.mapCount f).upperBound.equals (b.mapCount f).upperBound =
        last.upperBound.equals b.upperBound := rfl
    rw [List.map_cons, dropRepeatedBounds, dropRepeatedBounds, hsame, ih, ih]
    split <;> rfl

theorem distinctBounds_map (bs : List (Bucket Binary64)) :
    distinctBounds (bs.map (Bucket.mapCount f)) = (distinctBounds bs).map (Bucket.mapCount f) := by
  cases bs with
  | nil => rfl
  | cons b bs => exact congrArg (b.mapCount f :: ·) (dropRepeatedBounds_map f b bs)

theorem endsInfinite_map (bs : List (Bucket Binary64)) :
    endsInfinite (bs.map (Bucket.mapCount f)) = endsInfinite bs := by
  rw [endsInfinite, List.getLast?_map, Option.any_map]
  rfl

theorem withInfinite_map (total : Count) (bs : List (Bucket Binary64)) :
    withInfinite (f total) (bs.map (Bucket.mapCount f)) = (withInfinite total bs).map (Bucket.mapCount f) := by
  rw [withInfinite, withInfinite, endsInfinite_map]
  split
  · rfl
  · rw [List.map_append]
    rfl

theorem normalize_mapCounts (h : Histogram Binary64) : (h.mapCounts f).normalize = h.normalize.mapCounts f := by
  have hsort : Sorted.sortBy (compareOn Bucket.upperBound) (h.buckets.map (Bucket.mapCount f)) =
      (Sorted.sortBy (compareOn Bucket.upperBound) h.buckets).map (Bucket.mapCount f) :=
    Sorted.sortBy_map (g := Bucket.mapCount f) (fun _ _ => rfl) _
  simp only [normalize, mapCounts, hsort, distinctBounds_map, withInfinite_map]

end Histogram
end Histograms

/-! ## Summaries -/

def Quantile.plain (q : Quantile Binary64) : Quantile Binary64 := { q with value := q.value.plain }

namespace Summary

def plain (s : Summary Binary64) : Summary Binary64 :=
  { s with sampleSum := s.sampleSum.plain, quantiles := s.quantiles.map Quantile.plain }

def mapCounts (f : Count → Count) (s : Summary Binary64) : Summary Binary64 :=
  { s with sampleCount := f s.sampleCount }

@[simp] theorem plain_mk (count : Count) (sum : Binary64) (qs : List (Quantile Binary64)) :
    plain ⟨count, sum, qs⟩ = ⟨count, sum.plain, qs.map Quantile.plain⟩ := rfl

@[simp] theorem mapCounts_mk (f : Count → Count) (count : Count) (sum : Binary64) (qs : List (Quantile Binary64)) :
    mapCounts f ⟨count, sum, qs⟩ = ⟨f count, sum, qs⟩ := rfl

theorem normalize_plain (s : Summary Binary64) : s.plain.normalize = s.normalize.plain := by
  have hsort : Sorted.sortBy (compareOn Quantile.share) (s.quantiles.map Quantile.plain) =
      (Sorted.sortBy (compareOn Quantile.share) s.quantiles).map Quantile.plain :=
    Sorted.sortBy_map (g := Quantile.plain) (fun _ _ => rfl) _
  simp only [normalize, plain, hsort]

end Summary

/-! ## Values -/

namespace MetricValue

/-- The value with every NaN taken for the one that a text has a word for. -/
def plain : MetricValue Binary64 → MetricValue Binary64
  | counter v => counter v.plain
  | gauge v => gauge v.plain
  | untyped v => untyped v.plain
  | histogram h => histogram h.plain
  | summary s => summary s.plain

/-- The value with other counts. -/
def mapCounts (f : Count → Count) : MetricValue Binary64 → MetricValue Binary64
  | counter v => counter v
  | gauge v => gauge v
  | untyped v => untyped v
  | histogram h => histogram (h.mapCounts f)
  | summary s => summary (s.mapCounts f)

/-- The value as a text gives it. -/
def printed (v : MetricValue Binary64) : MetricValue Binary64 := (v.mapCounts Count.reread).plain

/-- The counts of a value stand for doubles. -/
def Rounded : MetricValue Binary64 → Prop
  | counter _ | gauge _ | untyped _ => True
  | histogram h => h.Rounded
  | summary s => s.sampleCount.Rounded

instance : (v : MetricValue Binary64) → Decidable v.Rounded
  | counter _ | gauge _ | untyped _ => .isTrue trivial
  | histogram h => inferInstanceAs (Decidable h.Rounded)
  | summary s => inferInstanceAs (Decidable s.sampleCount.Rounded)

theorem normalize_plain (v : MetricValue Binary64) : v.plain.normalize = v.normalize.plain := by
  cases v with
  | counter | gauge | untyped | histogram => rfl
  | summary s => exact congrArg summary s.normalize_plain

theorem normalize_mapCounts (f : Count → Count) (v : MetricValue Binary64) :
    (v.mapCounts f).normalize = v.normalize.mapCounts f := by
  cases v with
  | counter | gauge | untyped | summary => rfl
  | histogram h => exact congrArg histogram (h.normalize_mapCounts f)

theorem normalize_printed (v : MetricValue Binary64) : v.printed.normalize = v.normalize.printed := by
  rw [printed, normalize_plain, normalize_mapCounts, printed]

theorem plain_plain (v : MetricValue Binary64) : v.plain.plain = v.plain := by
  cases v with
  | counter | gauge | untyped => simp only [plain, Binary64.plain_plain]
  | histogram => simp only [plain, Histogram.plain, Binary64.plain_plain]
  | summary => simp [plain, Summary.plain, Quantile.plain, Function.comp_def, Binary64.plain_plain]

/-- A rounding of counts that leaves those that stand for doubles shows in a value if it has other counts. -/
theorem plain_mapCounts_eq_iff {f : Count → Count} (hf : ∀ c, f c = c ↔ c.Rounded) (v : MetricValue Binary64) :
    (v.mapCounts f).plain = v.plain ↔ v.Rounded := by
  cases v with
  | counter | gauge | untyped => exact iff_of_true rfl trivial
  | histogram h =>
    have hbucket : ∀ b : Bucket Binary64, b.mapCount f = b ↔ b.cumulativeCount.Rounded := by
      rintro ⟨bound, count⟩
      simp [Bucket.mapCount, hf]
    obtain ⟨count, sum, buckets⟩ := h
    have hbuckets : buckets.map (Bucket.mapCount f) = buckets ↔ ∀ b ∈ buckets, b.cumulativeCount.Rounded := by
      have hmap := List.map_inj_left (l := buckets) (f := Bucket.mapCount f) (g := id)
      simpa [hbucket] using hmap
    simp [mapCounts, plain, Histogram.mapCounts, Histogram.plain, Rounded, Histogram.Rounded, hf, hbuckets]
  | summary s =>
    obtain ⟨count, sum, quantiles⟩ := s
    simp [mapCounts, plain, Summary.mapCounts, Summary.plain, Rounded, hf]

theorem printed_eq_plain_iff (v : MetricValue Binary64) : v.printed = v.plain ↔ v.Rounded :=
  plain_mapCounts_eq_iff (fun c => (Count.rounded_iff c).symm) v

end MetricValue
end MetricGateway
