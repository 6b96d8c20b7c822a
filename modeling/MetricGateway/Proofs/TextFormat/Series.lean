import Mathlib.Tactic.Push
import MetricGateway.Proofs.Metric.Shape
import MetricGateway.Proofs.TextFormat.Samples

/-!
# Samples of one series

Two samples are of one series if they have the same name and the same labels, in whatever order (`SameSeries`). The
samples of one metric differ in their suffixes, bounds and quantiles (`Metric.pairwise_series`), those of two metrics
of a family in the labels of the metrics (`Metric.labels_eq_of_sameSeries`). Samples of two families may be of one
series only if one of them bears nothing but the name of its family, and the other one a suffix (`Family.Meets`). So a
text has two samples of one series exactly if two of its families meet (`pairwise_series_iff`).
-/

namespace MetricGateway

/-- The samples are of one series: they have the same name and the same labels in some order. -/
def SameSeries (a b : String × List Label) : Prop := a.1 = b.1 ∧ a.2.Perm b.2

instance (a b : String × List Label) : Decidable (SameSeries a b) := inferInstanceAs (Decidable (_ ∧ _))

theorem SameSeries.symm {a b : String × List Label} (h : SameSeries a b) : SameSeries b a := ⟨h.1.symm, h.2.symm⟩

/-- The quantiles in a value. -/
def MetricValue.shares : MetricValue Binary64 → List Binary64
  | summary s => s.quantiles.map Quantile.share
  | _ => []

/-- The samples of a family that bear only its name. -/
def Family.bareSeries (f : Family) : List (String × List Label) := f.metrics.flatMap (·.bareSeries f.name)

/-- The samples of a family that bear its name with a suffix. -/
def Family.suffixedSeries (f : Family) : List (String × List Label) := f.metrics.flatMap (·.suffixedSeries f.name)

/-- A sample that bears only the name of the first family is of one series with a sample of the second family that
bears a suffix. -/
def Family.Meets (f g : Family) : Prop := ∃ a ∈ f.bareSeries, ∃ b ∈ g.suffixedSeries, SameSeries a b

instance (f g : Family) : Decidable (f.Meets g) :=
  inferInstanceAs (Decidable (∃ a ∈ f.bareSeries, ∃ b ∈ g.suffixedSeries, _))

theorem Family.mem_series_iff {f : Family} {x : String × List Label} :
    x ∈ f.series ↔ x ∈ f.bareSeries ∨ x ∈ f.suffixedSeries := by
  simp only [series, bareSeries, suffixedSeries, List.mem_flatMap, List.mem_append]
  constructor
  · rintro ⟨m, hm, hx | hx⟩
    · exact .inl ⟨m, hm, hx⟩
    · exact .inr ⟨m, hm, hx⟩
  · rintro (⟨m, hm, hx⟩ | ⟨m, hm, hx⟩)
    · exact ⟨m, hm, .inl hx⟩
    · exact ⟨m, hm, .inr hx⟩

open TextFormat

namespace Metric

/-! ## Names of samples -/

theorem name_of_mem_bareSeries {name : String} {m : Metric Binary64} {x : String × List Label}
    (h : x ∈ m.bareSeries name) : x.1 = name := by
  unfold bareSeries at h
  split at h
  · rw [List.mem_singleton.mp h]
  · rw [List.mem_singleton.mp h]
  · rw [List.mem_singleton.mp h]
  · cases h
  · obtain ⟨q, -, rfl⟩ := List.mem_map.mp h
    rfl

theorem name_of_mem_totalSeries {name : String} {labels : LabelSet} {x : String × List Label}
    (h : x ∈ totalSeries name labels) : (x.1 = name ++ "_sum" ∨ x.1 = name ++ "_count") ∧ x.2 = labels.toList := by
  rcases List.mem_cons.mp h with rfl | h
  · exact ⟨.inl rfl, rfl⟩
  · rw [List.mem_singleton.mp h]
    exact ⟨.inr rfl, rfl⟩

theorem name_of_mem_suffixedSeries {name : String} {m : Metric Binary64} {x : String × List Label}
    (h : x ∈ m.suffixedSeries name) : ∃ e ∈ sampleSuffixes, x.1 = name ++ e.1 := by
  have htotal : x ∈ totalSeries name m.labels → ∃ e ∈ sampleSuffixes, x.1 = name ++ e.1 := by
    intro hx
    rcases (name_of_mem_totalSeries hx).1 with hname | hname
    · exact ⟨("_sum", .sum), by decide, hname⟩
    · exact ⟨("_count", .count), by decide, hname⟩
  unfold suffixedSeries at h
  split at h
  · cases h
  · cases h
  · cases h
  · rcases List.mem_append.mp h with h | h
    · obtain ⟨b, -, rfl⟩ := List.mem_map.mp h
      exact ⟨("_bucket", .bucket), by decide, rfl⟩
    · exact htotal h
  · exact htotal h

/-! ## Samples of one metric -/

/-- Numbers are told apart by their texts. -/
theorem numberLabel_injective {own : String} {x y : Binary64} (hx : x.isNaN = false) (hy : y.isNaN = false)
    (h : numberLabel own x = numberLabel own y) : x = y := by
  have htext : x.text = y.text := String.ofList_injective (congrArg Label.value h)
  have hread := congrArg Binary64.read? htext
  rw [Binary64.read?_text, Binary64.read?_text, Binary64.plain, Binary64.plain, if_neg (by simp [hx]),
    if_neg (by simp [hy])] at hread
  exact Option.some.inj hread

/-- Samples with one name and different numbers in their own label are of different series. -/
theorem pairwise_own {α : Type} {number : α → Binary64} {xs : List α} (hnodup : (xs.map number).Nodup)
    (hnumber : ∀ x ∈ xs, (number x).isNaN = false) (name own : String) (ls : List Label) :
    (xs.map fun x => (name, ls ++ [numberLabel own (number x)])).Pairwise fun a b => ¬ SameSeries a b := by
  rw [List.pairwise_map]
  refine (List.pairwise_map.mp hnodup).imp_of_mem fun {x y} hx hy hne hsame => ?_
  have hlabel := List.singleton_perm_singleton.mp ((List.perm_append_left_iff ls).mp hsame.2)
  exact hne (numberLabel_injective (hnumber x hx) (hnumber y hy) hlabel)

theorem append_suffix_inj {name : String} {d e : String × SampleKind} (hd : d ∈ sampleSuffixes)
    (he : e ∈ sampleSuffixes) (h : name ++ d.1 = name ++ e.1) : d = e :=
  (eq_of_append_suffix hd he h).2

theorem pairwise_totalSeries (name : String) (labels : LabelSet) :
    (totalSeries name labels).Pairwise fun a b => ¬ SameSeries a b := by
  refine .cons (fun x hx hsame => ?_) (List.pairwise_singleton _ _)
  rw [List.mem_singleton.mp hx] at hsame
  have heq := append_suffix_inj (d := ("_sum", .sum)) (e := ("_count", .count)) (by decide) (by decide) hsame.1
  revert heq
  decide

/-- The samples of a metric are of different series if its bounds and its quantiles differ. -/
theorem pairwise_series {m : Metric Binary64} (hm : m.Writable) (hbounds : m.value.bounds.Nodup)
    (hshares : m.value.shares.Nodup) (name : String) :
    (m.bareSeries name ++ m.suffixedSeries name).Pairwise fun a b => ¬ SameSeries a b := by
  refine List.pairwise_append.mpr ⟨?_, ?_, fun a ha b hb hsame => ?_⟩
  · unfold bareSeries
    obtain ⟨labels, v, n⟩ := m
    cases v with
    | counter | gauge | untyped => exact List.pairwise_singleton _ _
    | histogram => exact .nil
    | summary s => exact pairwise_own hshares hm.ordered name quantileLabel labels.toList
  · unfold suffixedSeries
    obtain ⟨labels, v, n⟩ := m
    cases v with
    | counter | gauge | untyped => exact .nil
    | histogram h =>
      refine List.pairwise_append.mpr
        ⟨pairwise_own hbounds hm.ordered _ boundLabel labels.toList, pairwise_totalSeries name labels, ?_⟩
      intro a ha b hb hsame
      obtain ⟨bucket, -, rfl⟩ := List.mem_map.mp ha
      rcases (name_of_mem_totalSeries hb).1 with hname | hname
      · have heq := append_suffix_inj (d := ("_bucket", .bucket)) (e := ("_sum", .sum)) (by decide) (by decide)
          (hsame.1.trans hname)
        revert heq
        decide
      · have heq := append_suffix_inj (d := ("_bucket", .bucket)) (e := ("_count", .count)) (by decide) (by decide)
          (hsame.1.trans hname)
        revert heq
        decide
    | summary => exact pairwise_totalSeries name labels
  · obtain ⟨e, he, hname⟩ := name_of_mem_suffixedSeries hb
    exact append_suffix_ne he ((hname.symm.trans hsame.1.symm).trans (name_of_mem_bareSeries ha))

/-! ## Samples of two metrics -/

/-- The label that tells apart the samples of a metric of the given type. -/
def ownLabel? : MetricType → Option String
  | .histogram => some boundLabel
  | .summary => some quantileLabel
  | _ => none

theorem labels_of_mem_series {m : Metric Binary64} {name : String} {x : String × List Label}
    (h : x ∈ m.bareSeries name ++ m.suffixedSeries name) : x.2 = m.labels.toList ∨
      ∃ own v, ownLabel? m.value.type = some own ∧ x.2 = m.labels.toList ++ [numberLabel own v] := by
  obtain ⟨labels, v, n⟩ := m
  cases v with
  | counter | gauge | untyped =>
    rw [List.mem_singleton.mp h]
    exact .inl rfl
  | histogram g =>
    rcases List.mem_append.mp (show x ∈ List.map _ _ ++ totalSeries name labels from h) with h | h
    · obtain ⟨b, -, rfl⟩ := List.mem_map.mp h
      exact .inr ⟨boundLabel, _, rfl, rfl⟩
    · exact .inl (name_of_mem_totalSeries h).2
  | summary s =>
    rcases List.mem_append.mp (show x ∈ List.map _ _ ++ totalSeries name labels from h) with h | h
    · obtain ⟨q, -, rfl⟩ := List.mem_map.mp h
      exact .inr ⟨quantileLabel, _, rfl, rfl⟩
    · exact .inl (name_of_mem_totalSeries h).2

/-- Without the label of their own, all samples of a metric have its labels. -/
theorem filter_of_mem_series {m : Metric Binary64} (hm : m.Writable) {name : String} {x : String × List Label}
    (h : x ∈ m.bareSeries name ++ m.suffixedSeries name) :
    x.2.filter (ownLabel? m.value.type ≠ some ·.name) = m.labels.toList := by
  have hown : ∀ l ∈ m.labels.toList, ownLabel? m.value.type ≠ some l.name := by
    intro l hl hown
    cases htype : m.value.type with
    | counter | gauge | untyped =>
      rw [htype] at hown
      cases hown
    | histogram =>
      rw [htype] at hown
      exact hm.ne_boundLabel htype l hl (Option.some.inj hown).symm
    | summary =>
      rw [htype] at hown
      exact hm.ne_quantileLabel htype l hl (Option.some.inj hown).symm
  have hkeep : m.labels.toList.filter (ownLabel? m.value.type ≠ some ·.name) = m.labels.toList :=
    List.filter_eq_self.mpr fun l hl => decide_eq_true (hown l hl)
  rcases labels_of_mem_series h with hx | ⟨own, v, htype, hx⟩
  · rw [hx, hkeep]
  · rw [hx, List.filter_append, hkeep, htype]
    simp [numberLabel]

theorem labels_eq_of_sameSeries {m m' : Metric Binary64} (hm : m.Writable) (hm' : m'.Writable)
    (htype : m.value.type = m'.value.type) {name : String} {a b : String × List Label}
    (ha : a ∈ m.bareSeries name ++ m.suffixedSeries name) (hb : b ∈ m'.bareSeries name ++ m'.suffixedSeries name)
    (h : SameSeries a b) : m.labels = m'.labels := by
  apply LabelSet.eq_of_perm
  rw [← filter_of_mem_series hm ha, ← filter_of_mem_series hm' hb, htype]
  exact h.2.filter _

end Metric

/-! ## Samples of families -/

/-- A family whose series, bounds and quantiles are each listed once. -/
structure Family.ListsOnce (f : Family) : Prop where
  labels : (f.metrics.map Metric.labels).Nodup
  bounds : ∀ m ∈ f.metrics, m.value.bounds.Nodup
  shares : ∀ m ∈ f.metrics, m.value.shares.Nodup

theorem Family.pairwise_series {f : Family} (hf : f.Writable) (honce : f.ListsOnce) :
    f.series.Pairwise fun a b => ¬ SameSeries a b := by
  refine List.pairwise_flatMap.mpr ⟨fun m hm => ?_, ?_⟩
  · exact Metric.pairwise_series (hf.writable m hm) (honce.bounds m hm) (honce.shares m hm) f.name
  · refine (List.pairwise_map.mp honce.labels).imp_of_mem fun {m m'} hm hm' hne a ha b hb hsame => hne ?_
    exact Metric.labels_eq_of_sameSeries (hf.writable m hm) (hf.writable m' hm')
      ((hf.typed m hm).trans (hf.typed m' hm').symm) ha hb hsame

theorem Family.name_of_mem_bareSeries {f : Family} {x : String × List Label} (h : x ∈ f.bareSeries) : x.1 = f.name := by
  obtain ⟨m, -, hx⟩ := List.mem_flatMap.mp h
  exact Metric.name_of_mem_bareSeries hx

theorem Family.name_of_mem_suffixedSeries {f : Family} {x : String × List Label} (h : x ∈ f.suffixedSeries) :
    ∃ e ∈ sampleSuffixes, x.1 = f.name ++ e.1 := by
  obtain ⟨m, -, hx⟩ := List.mem_flatMap.mp h
  exact Metric.name_of_mem_suffixedSeries hx

/-- Families with different names have samples of one series exactly if they meet. -/
theorem Family.sameSeries_iff {f g : Family} (hne : f.name ≠ g.name) :
    (∃ a ∈ f.series, ∃ b ∈ g.series, SameSeries a b) ↔ f.Meets g ∨ g.Meets f := by
  constructor
  · rintro ⟨a, ha, b, hb, hsame⟩
    rcases mem_series_iff.mp ha with ha | ha
    · rcases mem_series_iff.mp hb with hb | hb
      · have hname := hsame.1
        rw [name_of_mem_bareSeries ha, name_of_mem_bareSeries hb] at hname
        exact absurd hname hne
      · exact .inl ⟨a, ha, b, hb, hsame⟩
    · rcases mem_series_iff.mp hb with hb | hb
      · exact .inr ⟨b, hb, a, ha, hsame.symm⟩
      · obtain ⟨e, he, hname⟩ := name_of_mem_suffixedSeries ha
        obtain ⟨e', he', hname'⟩ := name_of_mem_suffixedSeries hb
        rw [SameSeries, hname, hname'] at hsame
        exact absurd (eq_of_append_suffix he he' hsame.1).1 hne
  · rintro (⟨a, ha, b, hb, hsame⟩ | ⟨a, ha, b, hb, hsame⟩)
    · exact ⟨a, mem_series_iff.mpr (.inl ha), b, mem_series_iff.mpr (.inr hb), hsame⟩
    · exact ⟨b, mem_series_iff.mpr (.inr hb), a, mem_series_iff.mpr (.inl ha), hsame.symm⟩

theorem Family.not_meets_self (f : Family) : ¬ f.Meets f := by
  rintro ⟨a, ha, b, hb, hsame⟩
  obtain ⟨e, he, hname⟩ := name_of_mem_suffixedSeries hb
  exact append_suffix_ne he ((hname.symm.trans hsame.1.symm).trans (name_of_mem_bareSeries ha))

/-- **When the samples of families are of different series.** -/
theorem pairwise_series_iff {fs : List Family} (hfs : ∀ f ∈ fs, f.Writable) (honce : ∀ f ∈ fs, f.ListsOnce)
    (hnames : fs.Pairwise fun f g => f.name ≠ g.name) :
    ((fs.flatMap Family.series).Pairwise fun a b => ¬ SameSeries a b) ↔ ∀ f ∈ fs, ∀ g ∈ fs, ¬ f.Meets g := by
  have hfamilies : ((fs.flatMap Family.series).Pairwise fun a b => ¬ SameSeries a b) ↔
      fs.Pairwise fun f g => ¬ f.Meets g ∧ ¬ g.Meets f := by
    rw [List.pairwise_flatMap, and_iff_right fun f hf => (Family.pairwise_series (hfs f hf) (honce f hf))]
    refine ⟨fun h => (hnames.and h).imp ?_, fun h => (hnames.and h).imp ?_⟩
    · rintro f g ⟨hne, hsame⟩
      rw [← not_or, ← Family.sameSeries_iff hne]
      rintro ⟨a, ha, b, hb, h⟩
      exact hsame a ha b hb h
    · rintro f g ⟨hne, hmeets⟩ a ha b hb h
      rw [← not_or, ← Family.sameSeries_iff hne] at hmeets
      exact hmeets ⟨a, ha, b, hb, h⟩
  rw [hfamilies]
  constructor
  · intro h f hf g hg
    have hsymm : Std.Symm fun f g : Family => ¬ f.Meets g ∧ ¬ g.Meets f := ⟨fun _ _ h => h.symm⟩
    exact (h.forall_of_forall (fun f _ => ⟨f.not_meets_self, f.not_meets_self⟩) hf hg).1
  · intro h
    exact hnames.imp_of_mem fun hf hg _ => ⟨h _ hf _ hg, h _ hg _ hf⟩

end MetricGateway
