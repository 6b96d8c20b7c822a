import MetricGateway.Proofs.Exposition.Samples
import MetricGateway.Proofs.Metric.Printed
import MetricGateway.Proofs.Protobuf.Exchange

/-!
# The families of a text

What a draft holds fits its type, its bounds and shares are numbers, its label names can be spelled, its counts were
read from doubles, and its help has no padding at its end (`Draft.Sound`, `kept_sound`). The metrics of the families
that are read inherit all of this (`Family.Textual`, `textual_of_read`).
-/

namespace MetricGateway

/-- A value that is a single number. -/
def MetricValue.IsNumber : MetricValue Binary64 → Prop
  | counter _ | gauge _ | untyped _ => True
  | histogram _ | summary _ => False

/-- What every family that is read from a text has. -/
structure Family.Textual (f : Family) : Prop where
  exchangeable : f.Exchangeable
  help : ∀ help ∈ f.help, TextFormat.settle help.toList = help.toList
  spelled : ∀ m ∈ f.metrics, m.labels.Spelled
  rounded : ∀ m ∈ f.metrics, m.value.Rounded
  reread : ∀ m ∈ f.metrics, m.reread = m
  /-- The samples of a distribution are gathered by label set. -/
  nodup : f.type = .histogram ∨ f.type = .summary → (f.metrics.map Metric.labels).Nodup

namespace TextFormat

/-- What every draft of a text has. -/
structure Draft.Sound (d : Draft) : Prop where
  help : ∀ help ∈ d.help, settle help.toList = help.toList
  metrics : ∀ m ∈ d.metrics, d.type = some m.value.type ∧ m.value.IsNumber ∧ m.labels.Spelled
  histograms : ∀ e ∈ d.histograms, d.type = some .histogram ∧ e.1.Spelled ∧ e.2.Ordered ∧ e.2.Rounded
  summaries : ∀ e ∈ d.summaries, d.type = some .summary ∧ e.1.Spelled ∧ e.2.Ordered ∧ e.2.sampleCount.Rounded
  nodup_histograms : (d.histograms.map Prod.fst).Nodup
  nodup_summaries : (d.summaries.map Prod.fst).Nodup

theorem rounded_toCount (x : Binary64) : Count.Rounded x.toCount := ⟨x, rfl⟩

theorem rounded_zero : Count.Rounded 0 := ⟨.nan false, rfl⟩

section Gathered

variable {β : Type} {labels : LabelSet} {initial : β} {f : β → β} {xs : List (LabelSet × β)} {q : β → Prop}

/-- What is gathered by label set keeps a property that the change of one entry keeps. -/
theorem gathered_alter (hxs : ∀ e ∈ xs, e.1.Spelled ∧ q e.2) (hlabels : labels.Spelled) (hinitial : q initial)
    (hf : ∀ b, q b → q (f b)) : ∀ e ∈ Appearance.alter labels initial f xs, e.1.Spelled ∧ q e.2 := by
  intro e he
  rcases Appearance.mem_alter he with he | rfl
  · exact hxs e he
  · refine ⟨hlabels, hf _ ?_⟩
    cases hlook : xs.lookup labels with
    | none => exact hinitial
    | some b => exact (hxs _ (Appearance.mem_of_lookup hlook)).2

end Gathered

theorem sound_empty : Draft.Sound {} where
  help := by simp
  metrics := by simp
  histograms := by simp
  summaries := by simp
  nodup_histograms := by simp
  nodup_summaries := by simp

/-- What holds of a draft with a type holds once it has the type. -/
theorem Draft.Sound.withType {d : Draft} (hd : d.Sound) {type : MetricType} {sampled : Bool}
    (h : d.type = none ∨ d.type = some type) : Draft.Sound { d with type := some type, sampled := sampled } where
  help := hd.help
  metrics m hm := by
    obtain ⟨htype, hm⟩ := hd.metrics m hm
    rcases h with h | h
    · rw [htype] at h
      cases h
    · exact ⟨h ▸ htype, hm⟩
  histograms e he := by
    obtain ⟨htype, he⟩ := hd.histograms e he
    rcases h with h | h
    · rw [htype] at h
      cases h
    · exact ⟨h ▸ htype, he⟩
  summaries e he := by
    obtain ⟨htype, he⟩ := hd.summaries e he
    rcases h with h | h
    · rw [htype] at h
      cases h
    · exact ⟨h ▸ htype, he⟩
  nodup_histograms := hd.nodup_histograms
  nodup_summaries := hd.nodup_summaries

theorem Draft.Sound.opened {d : Draft} (hd : d.Sound) : d.opened.Sound := by
  refine hd.withType ?_
  cases d.type with
  | none => exact .inl rfl
  | some type => exact .inr rfl

theorem Draft.Sound.addMetric {d : Draft} (hd : d.Sound) {labels : LabelSet} (hlabels : labels.Spelled)
    {v : MetricValue Binary64} (htype : d.type = some v.type) (hv : v.IsNumber) : (d.addMetric labels v).Sound :=
  { hd with
    metrics := fun m hm => by
      rcases List.mem_append.mp hm with hm | hm
      · exact hd.metrics m hm
      · cases List.mem_singleton.mp hm
        exact ⟨htype, hv, hlabels⟩ }

theorem Draft.Sound.onHistogram {d : Draft} (hd : d.Sound) {labels : LabelSet} (hlabels : labels.Spelled)
    (htype : d.type = some .histogram) {f : Histogram Binary64 → Histogram Binary64}
    (hf : ∀ h, h.Ordered ∧ h.Rounded → (f h).Ordered ∧ (f h).Rounded) : (d.onHistogram labels f).Sound :=
  { hd with
    histograms := fun e he => by
      have hempty : noHistogram.Ordered ∧ noHistogram.Rounded :=
        ⟨fun b hb => (by cases hb), rounded_zero, fun b hb => (by cases hb)⟩
      exact ⟨htype, gathered_alter (fun e he => (hd.histograms e he).2) hlabels hempty hf e he⟩
    nodup_histograms := Appearance.nodup_alter _ _ hd.nodup_histograms }

theorem Draft.Sound.onSummary {d : Draft} (hd : d.Sound) {labels : LabelSet} (hlabels : labels.Spelled)
    (htype : d.type = some .summary) {f : Summary Binary64 → Summary Binary64}
    (hf : ∀ s, s.Ordered ∧ s.sampleCount.Rounded → (f s).Ordered ∧ (f s).sampleCount.Rounded) :
    (d.onSummary labels f).Sound :=
  { hd with
    summaries := fun e he => by
      have hempty : noSummary.Ordered ∧ noSummary.sampleCount.Rounded := ⟨fun q hq => (by cases hq), rounded_zero⟩
      exact ⟨htype, gathered_alter (fun e he => (hd.summaries e he).2) hlabels hempty hf e he⟩
    nodup_summaries := Appearance.nodup_alter _ _ hd.nodup_summaries }

theorem Draft.Sound.addition {d d' : Draft} (hd : d.Sound) {labels : LabelSet} {own value : Binary64}
    {type : MetricType} {kind : SampleKind} (htype : d.type = some type) (hown : own.isNaN = false)
    (hlabels : labels.Spelled) (h : d.Addition labels own value type kind d') : d'.Sound := by
  cases h with
  | number hv =>
    refine hd.addMetric hlabels htype ?_
    rcases hv with rfl | rfl | rfl <;> trivial
  | bucket =>
    refine hd.onHistogram hlabels htype fun h ⟨hord, hsum, hbuckets⟩ => ⟨?_, hsum, ?_⟩
    · intro b hb
      rcases List.mem_append.mp hb with hb | hb
      · exact hord b hb
      · cases List.mem_singleton.mp hb
        exact hown
    · intro b hb
      rcases List.mem_append.mp hb with hb | hb
      · exact hbuckets b hb
      · cases List.mem_singleton.mp hb
        exact rounded_toCount value
  | histogramSum => exact hd.onHistogram hlabels htype fun h hh => hh
  | histogramCount => exact hd.onHistogram hlabels htype fun h ⟨hord, _, hb⟩ => ⟨hord, rounded_toCount value, hb⟩
  | quantile =>
    refine hd.onSummary hlabels htype fun s ⟨hord, hcount⟩ => ⟨fun q hq => ?_, hcount⟩
    rcases List.mem_append.mp hq with hq | hq
    · exact hord q hq
    · cases List.mem_singleton.mp hq
      exact hown
  | summarySum => exact hd.onSummary hlabels htype fun s hs => hs
  | summaryCount => exact hd.onSummary hlabels htype fun s ⟨hord, _⟩ => ⟨hord, rounded_toCount value⟩

theorem kept_sound : Draft.Kept Draft.Sound where
  empty := sound_empty
  help d help hd hhelp :=
    { hd with
      help := fun h hh => by
        cases hh
        rw [String.toList_ofList, hhelp] }
  type d type hd hnew := hd.withType (.inl hnew)
  sample d d' labels own value kind hd hown hlabels h := hd.opened.addition rfl hown hlabels h

/-! ## Families -/

theorem Draft.mem_allMetrics {d : Draft} {m : Metric Binary64} (h : m ∈ d.allMetrics) :
    m ∈ d.metrics ∨ (∃ e ∈ d.histograms, m = { labels := e.1, value := .histogram e.2.normalize }) ∨
      ∃ e ∈ d.summaries, m = { labels := e.1, value := .summary e.2.normalize } := by
  rcases List.mem_append.mp h with h | h
  · rcases List.mem_append.mp h with h | h
    · exact .inl h
    · obtain ⟨e, he, rfl⟩ := List.mem_map.mp h
      exact .inr (.inl ⟨e, he, rfl⟩)
  · obtain ⟨e, he, rfl⟩ := List.mem_map.mp h
    exact .inr (.inr ⟨e, he, rfl⟩)

theorem Draft.family?_eq_some {d : Draft} {name : String} {f : Family} (h : d.family? name = some f) :
    d.type = some f.type ∧ d.allMetrics ≠ [] ∧
      f = { name, help := d.help, type := f.type, metrics := d.allMetrics } := by
  unfold Draft.family? at h
  split at h
  · cases h
  next type htype =>
    dsimp only at h
    split at h
    · cases h
    next hne =>
      cases h
      exact ⟨htype, by simpa using hne, rfl⟩

section Sound

variable {d : Draft} (hd : d.Sound)
include hd

theorem Draft.Sound.reread {m : Metric Binary64} (hobs : ∀ m ∈ d.metrics, m.observations = 1) (hm : m ∈ d.allMetrics) :
    m.reread = m := by
  rcases Draft.mem_allMetrics hm with hm | ⟨e, he, rfl⟩ | ⟨e, he, rfl⟩
  · obtain ⟨-, hnum, -⟩ := hd.metrics m hm
    have hone := hobs m hm
    obtain ⟨labels, v, n⟩ := m
    dsimp only at hnum hone
    cases hone
    cases v with
    | counter | gauge | untyped => rfl
    | histogram | summary => cases hnum
  · obtain ⟨-, -, hord, -⟩ := hd.histograms e he
    have hnormal := MetricValue.normalize_normalize (v := .histogram e.2) hord
    exact congrArg (fun v => ({ labels := e.1, value := v } : Metric Binary64)) hnormal
  · obtain ⟨-, -, hord, -⟩ := hd.summaries e he
    have hnormal := MetricValue.normalize_normalize (v := .summary e.2) hord
    exact congrArg (fun v => ({ labels := e.1, value := v } : Metric Binary64)) hnormal

theorem Draft.Sound.type_eq {m : Metric Binary64} (hm : m ∈ d.allMetrics) : d.type = some m.value.type := by
  rcases Draft.mem_allMetrics hm with hm | ⟨e, he, rfl⟩ | ⟨e, he, rfl⟩
  · exact (hd.metrics m hm).1
  · exact (hd.histograms e he).1
  · exact (hd.summaries e he).1

theorem Draft.Sound.value {m : Metric Binary64} (hm : m ∈ d.allMetrics) :
    m.labels.Spelled ∧ m.value.Ordered ∧ m.value.Rounded := by
  rcases Draft.mem_allMetrics hm with hm | ⟨e, he, rfl⟩ | ⟨e, he, rfl⟩
  · obtain ⟨-, hnum, hlabels⟩ := hd.metrics m hm
    refine ⟨hlabels, ?_⟩
    cases hv : m.value with
    | counter | gauge | untyped => exact ⟨trivial, trivial⟩
    | histogram | summary =>
      rw [hv] at hnum
      cases hnum
  · obtain ⟨-, hlabels, hord, hround⟩ := hd.histograms e he
    exact ⟨hlabels, Histogram.ordered_normalize hord, hround.normalize⟩
  · obtain ⟨-, hlabels, hord, hround⟩ := hd.summaries e he
    exact ⟨hlabels, Summary.ordered_normalize hord, hround⟩

/-- A draft of a distribution has nothing but the distributions of its type. -/
theorem Draft.Sound.nodup_labels (h : d.type = some .histogram ∨ d.type = some .summary) :
    (d.allMetrics.map Metric.labels).Nodup := by
  have hmetrics : d.metrics = [] := by
    refine List.eq_nil_iff_forall_not_mem.mpr fun m hm => ?_
    obtain ⟨htype, hnum, -⟩ := hd.metrics m hm
    rw [htype] at h
    cases hv : m.value <;> simp_all [MetricValue.type, MetricValue.IsNumber]
  rcases h with h | h
  · have hsummaries : d.summaries = [] := by
      refine List.eq_nil_iff_forall_not_mem.mpr fun e he => ?_
      rw [(hd.summaries e he).1] at h
      cases h
    have hlabels : d.allMetrics.map Metric.labels = d.histograms.map Prod.fst := by
      simp [Draft.allMetrics, hmetrics, hsummaries]
    exact hlabels ▸ hd.nodup_histograms
  · have hhistograms : d.histograms = [] := by
      refine List.eq_nil_iff_forall_not_mem.mpr fun e he => ?_
      rw [(hd.histograms e he).1] at h
      cases h
    have hlabels : d.allMetrics.map Metric.labels = d.summaries.map Prod.fst := by
      simp [Draft.allMetrics, hmetrics, hhistograms]
    exact hlabels ▸ hd.nodup_summaries

theorem Draft.Sound.textual (hobs : ∀ m ∈ d.metrics, m.observations = 1) {name : String} (hname : name ≠ "")
    {f : Family} (h : d.family? name = some f) : f.Textual := by
  obtain ⟨htype, -, hf⟩ := Draft.family?_eq_some h
  have hmetrics : f.metrics = d.allMetrics := by rw [hf]
  have hhelp : f.help = d.help := by rw [hf]
  have hfname : f.name = name := by rw [hf]
  refine ⟨⟨hfname ▸ hname, ?_, ?_⟩, ?_, ?_, ?_, ?_, ?_⟩
  · intro m hm
    have hm := hd.type_eq (hmetrics ▸ hm)
    rw [htype] at hm
    exact (Option.some.inj hm).symm
  · exact fun m hm => (hd.value (hmetrics ▸ hm)).2.1
  · exact fun help hh => hd.help help (hhelp ▸ hh)
  · exact fun m hm => (hd.value (hmetrics ▸ hm)).1
  · exact fun m hm => (hd.value (hmetrics ▸ hm)).2.2
  · exact fun m hm => hd.reread hobs (hmetrics ▸ hm)
  · intro hdist
    rw [hmetrics]
    exact hd.nodup_labels (by rw [htype]; simpa using hdist)

end Sound

theorem sublist_names_families (ds : Drafts) : (ds.families.map Family.name).Sublist (ds.map Prod.fst) := by
  induction ds with
  | nil => exact .slnil
  | cons e ds ih =>
    obtain ⟨name, d⟩ := e
    unfold Drafts.families at ih ⊢
    rw [List.filterMap_cons]
    dsimp only
    cases hf : d.family? name with
    | none => exact ih.cons name
    | some f =>
      obtain ⟨-, -, hfam⟩ := Draft.family?_eq_some hf
      have hname : f.name = name := by rw [hfam]
      rw [List.map_cons, hname]
      exact ih.cons_cons name

/-- **The families of a text have different names and are textual.** -/
theorem textual_of_read {payload : List UInt8} {fs : List Family} (h : read payload = .ok fs) :
    (fs.map Family.name).Nodup ∧ ∀ f ∈ fs, f.Textual ∧ f.metrics ≠ [] := by
  unfold read at h
  split at h
  · cases h
  · obtain ⟨ds, hds, rfl⟩ := Outcome.map_eq_ok_iff.mp h
    have hnamed := named_of_readLines hds
    have hsound := readLines_keeps kept_sound hds
    have hobs := readLines_keeps kept_observations hds
    refine ⟨?_, fun f hf => ?_⟩
    · exact hnamed.nodup.sublist (sublist_names_families ds)
    · obtain ⟨⟨name, d⟩, he, hf⟩ := List.mem_filterMap.mp hf
      refine ⟨(hsound _ he).textual (hobs _ he) (hnamed.ne name (List.mem_map_of_mem he)) hf, ?_⟩
      obtain ⟨-, hne, hfam⟩ := Draft.family?_eq_some hf
      rw [hfam]
      exact hne

end TextFormat
end MetricGateway
