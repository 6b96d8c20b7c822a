import MetricGateway.Proofs.Label.Order
import MetricGateway.Proofs.Metric.Printed
import MetricGateway.Proofs.TextFormat.Lines
import MetricGateway.Proofs.TextFormat.Resolve

/-!
# Reading back metrics

The lines of a metric add it to the draft of its family, as they say it (`foldlM_metricLines`). A line with a suffix
finds this draft by itself, and a line that bears only the name of the family finds it unless another family claims the
name (`MetricValue.Bare`). The lines of a histogram or a summary are gathered by label set: what each of them does
there is written down beside it (`histogramSteps`, `summarySteps`), and together they do one thing (`foldlM_gather`).
-/

namespace MetricGateway

/-- A value with a sample line that bears only the name of the family. -/
def MetricValue.Bare : MetricValue Binary64 → Prop
  | counter _ | gauge _ | untyped _ => True
  | histogram _ => False
  | summary s => s.quantiles ≠ []

instance : (v : MetricValue Binary64) → Decidable v.Bare
  | .counter _ | .gauge _ | .untyped _ => .isTrue trivial
  | .histogram _ => .isFalse id
  | .summary s => inferInstanceAs (Decidable (s.quantiles ≠ []))

/-- A metric whose lines can be read. -/
structure Metric.Writable (m : Metric Binary64) : Prop where
  spelled : m.labels.Spelled
  ordered : m.value.Ordered
  ne_boundLabel : m.value.type = .histogram → ∀ l ∈ m.labels.toList, l.name ≠ boundLabel
  ne_quantileLabel : m.value.type = .summary → ∀ l ∈ m.labels.toList, l.name ≠ quantileLabel

namespace TextFormat

/-- What a line does to the draft of a family of the given type that is the last one. -/
def Extends (ds : Drafts) (name : String) (type : MetricType) (line : List Char) (g : Draft → Draft) : Prop :=
  ∀ d : Draft, d.type = some type → readLine (ds ++ [(name, d)]) line = .ok (ds ++ [(name, g d.opened)])

theorem Draft.opened_opened (d : Draft) : d.opened.opened = d.opened := rfl

theorem Draft.type_opened {d : Draft} {type : MetricType} (h : d.type = some type) : d.opened.type = some type := by
  rw [Draft.opened, h]
  rfl

/-- A family does not claim its own samples, so the last draft has no say in this. -/
theorem claims_last {ds : Drafts} {name : String} {d : Draft} {base : String}
    (h : Drafts.Claims (ds ++ [(name, d)]) base name) : ds.Claims base name := by
  obtain ⟨e, he, hname, hbears⟩ := h
  refine ⟨e, he, hname, ?_⟩
  have hne : name ≠ base := fun h => append_suffix_ne he (hname.symm.trans h)
  rwa [Drafts.draft, Appearance.lookup_append_singleton_of_ne hne] at hbears

/-! ## Labels of samples -/

theorem splitLabels_of_none {kind : SampleKind} (h : kind.ownLabel? = none) (s : SampleLine) :
    splitLabels s kind = .ok (.zero, s.labels) := by
  rw [splitLabels, h]

theorem splitLabels_numberLabel {kind : SampleKind} {own : String} (h : kind.ownLabel? = some own) {ls : List Label}
    (hls : ∀ l ∈ ls, l.name ≠ own) {x : Binary64} (hx : x.isNaN = false) (sample : String) (v : Binary64) :
    splitLabels ⟨sample, ls ++ [numberLabel own x], v⟩ kind = .ok (x, ls) := by
  have hread : Binary64.read? (numberLabel own x).value.toList = some x := by
    have hplain : x.plain = x := if_neg (by simp [hx])
    rw [numberLabel, String.toList_ofList, Binary64.read?_text, hplain]
  have hmiss : ∀ l ∈ ls, ¬ decide (l.name = own) = true := fun l hl => by simpa using hls l hl
  have hfind : (ls ++ [numberLabel own x]).find? (·.name = own) = some (numberLabel own x) := by
    rw [List.find?_append, List.find?_eq_none.mpr hmiss]
    simp [numberLabel]
  have herase : (ls ++ [numberLabel own x]).eraseP (·.name = own) = ls := by
    rw [List.eraseP_append_right _ hmiss]
    simp [numberLabel]
  rw [splitLabels, h]
  dsimp only
  rw [takeOwnLabel, hfind]
  dsimp only
  rw [hread]
  dsimp only
  rw [if_neg (by simp [hx]), herase]

theorem spelled_append_numberLabel {own : String} (hown : own = boundLabel ∨ own = quantileLabel) {labels : LabelSet}
    (hlabels : labels.Spelled) (x : Binary64) : ∀ l ∈ labels.toList ++ [numberLabel own x], l.Spelled := by
  have hspelled : own ≠ "" ∧ own.toList.all isLabelChar = true := by
    rcases hown with rfl | rfl <;> decide
  intro l hl
  rcases List.mem_append.mp hl with hl | hl
  · exact hlabels l hl
  · cases List.mem_singleton.mp hl
    exact hspelled

/-! ## Sample lines of a family -/

section Last

variable {ds : Drafts} {name : String} (hnew : name ∉ ds.map Prod.fst)
include hnew

theorem draft_last (d : Draft) : Drafts.draft (ds ++ [(name, d)]) name = d := by
  rw [Drafts.draft, Appearance.lookup_append_singleton hnew]
  rfl

theorem extends_sampleLine {type : MetricType} {sample : String} {kind : SampleKind} {labels : LabelSet}
    {ls : List Label} {own value : Binary64} {number : List Char} {g : Draft → Draft} (hsample : IsSampleName sample)
    (hls : ∀ l ∈ ls, l.Spelled) (hnumber : Spells number value)
    (hresolve : ∀ d : Draft, d.type = some type → Drafts.resolve (ds ++ [(name, d)]) sample = (name, kind))
    (hsplit : splitLabels ⟨sample, ls, value⟩ kind = .ok (own, labels.toList))
    (hadd : ∀ d : Draft, d.add? type kind labels own value = some (g d)) :
    Extends ds name type (sampleLine sample ls number) g := by
  intro d hd
  have hopened : { d with sampled := true, type := some type } = d.opened := by
    rw [Draft.opened, hd]
    rfl
  rw [readLine_sampleLine hsample hls hnumber]
  unfold Drafts.addSample
  rw [hresolve d hd]
  dsimp only
  rw [hsplit, Drafts.type?_eq, draft_last hnew, hd, Appearance.lookup_append_singleton hnew]
  dsimp only
  rw [LabelSet.ofList?_toList]
  dsimp only [Option.getD_some]
  rw [hopened, hadd]
  exact congrArg Except.ok (Appearance.alter_append_singleton hnew _ _ _)

theorem resolve_suffix {type : MetricType} {e : String × SampleKind} (he : e ∈ sampleSuffixes)
    (hbears : bearsSuffix (some type) e.2 = true) (d : Draft) (hd : d.type = some type) :
    Drafts.resolve (ds ++ [(name, d)]) (name ++ e.1) = (name, e.2) :=
  resolve_append he (by rw [draft_last hnew, hd, hbears])

theorem resolve_bare (hfree : ∀ base, ¬ ds.Claims base name) {type : MetricType} (d : Draft)
    (hd : d.type = some type) : Drafts.resolve (ds ++ [(name, d)]) name =
      (name, if type = .summary then .quantile else .plain) := by
  rw [resolve_of_unclaimed fun base h => hfree base (claims_last h), draft_last hnew, hd]
  simp

variable (hname : isMetricName name = true) {labels : LabelSet} (hlabels : labels.Spelled)
include hname hlabels

theorem extends_number (hfree : ∀ base, ¬ ds.Claims base name) {type : MetricType}
    {value : Binary64 → MetricValue Binary64} (htype : type ≠ .summary)
    (hadd : ∀ (d : Draft) own x, d.add? type .plain labels own x = some (d.addMetric labels (value x))) (x : Binary64) :
    Extends ds name type (sampleLine name labels.toList x.text) fun d => d.addMetric labels (value x.plain) :=
  extends_sampleLine hnew (isSampleName_of_isMetricName hname) hlabels (spells_text x)
    (fun d hd => by rw [resolve_bare hnew hfree d hd, if_neg htype]) (splitLabels_of_none rfl _)
    fun d => hadd d _ _

/-- The sample that belongs to a label set of a histogram or a summary, and what it does there. -/
theorem extends_suffix {type : MetricType} {e : String × SampleKind} (he : e ∈ sampleSuffixes)
    (hbears : bearsSuffix (some type) e.2 = true) (hnone : e.2.ownLabel? = none) {number : List Char} {value : Binary64}
    (hnumber : Spells number value) {g : Draft → Draft}
    (hadd : ∀ (d : Draft) own, d.add? type e.2 labels own value = some (g d)) :
    Extends ds name type (sampleLine (name ++ e.1) labels.toList number) g := by
  have hspelled : e.1.toList.all isMetricChar = true := by
    have hall : ∀ e ∈ sampleSuffixes, e.1.toList.all isMetricChar = true := by decide
    exact hall e he
  exact extends_sampleLine hnew ((isSampleName_of_isMetricName hname).append hspelled) hlabels hnumber
    (resolve_suffix hnew he hbears) (splitLabels_of_none hnone _) fun d => hadd d _

end Last

/-! ## Samples of one label set -/

/-- Lines that one after the other change what is gathered for a label set change it together. -/
theorem foldlM_gather {β : Type} (gather : Draft → (β → β) → Draft)
    (htype : ∀ d f, (gather d f).type = d.type) (hopened : ∀ d f, (gather d f).opened = gather d.opened f)
    (hgather : ∀ d f g, gather (gather d f) g = gather d fun b => g (f b)) {ds : Drafts} {name : String}
    {type : MetricType} {steps : List (List Char × (β → β))} (hne : steps ≠ [])
    (hsteps : ∀ s ∈ steps, Extends ds name type s.1 fun d => gather d s.2) {d : Draft} (hd : d.type = some type) :
    (steps.map Prod.fst).foldlM readLine (ds ++ [(name, d)]) =
      .ok (ds ++ [(name, gather d.opened fun b => steps.foldl (fun b s => s.2 b) b)]) := by
  induction steps generalizing d with
  | nil => exact absurd rfl hne
  | cons s steps ih =>
    obtain ⟨hs, hsteps⟩ := List.forall_mem_cons.mp hsteps
    rw [List.map_cons, List.foldlM_cons, hs d hd]
    by_cases hnil : steps = []
    · rw [hnil]
      rfl
    · have hd' : (gather d.opened s.2).type = some type := (htype _ _).trans (Draft.type_opened hd)
      refine (ih hnil hsteps hd').trans ?_
      rw [hopened, Draft.opened_opened, hgather]
      rfl

theorem Draft.onHistogram_onHistogram (d : Draft) (labels : LabelSet) (f g : Histogram Binary64 → Histogram Binary64) :
    (d.onHistogram labels f).onHistogram labels g = d.onHistogram labels fun h => g (f h) := by
  simp only [Draft.onHistogram, Appearance.alter_alter]

theorem Draft.onSummary_onSummary (d : Draft) (labels : LabelSet) (f g : Summary Binary64 → Summary Binary64) :
    (d.onSummary labels f).onSummary labels g = d.onSummary labels fun s => g (f s) := by
  simp only [Draft.onSummary, Appearance.alter_alter]

theorem foldl_buckets (f : Bucket Binary64 → Bucket Binary64) (bs : List (Bucket Binary64)) (h : Histogram Binary64) :
    bs.foldl (fun h b => { h with buckets := h.buckets ++ [f b] }) h = { h with buckets := h.buckets ++ bs.map f } := by
  induction bs generalizing h with
  | nil => simp
  | cons b bs ih => simp [ih]

theorem foldl_quantiles (f : Quantile Binary64 → Quantile Binary64) (qs : List (Quantile Binary64))
    (s : Summary Binary64) : qs.foldl (fun s q => { s with quantiles := s.quantiles ++ [f q] }) s =
      { s with quantiles := s.quantiles ++ qs.map f } := by
  induction qs generalizing s with
  | nil => simp
  | cons q qs ih => simp [ih]

/-- The lines of a histogram, and what each of them says of it. -/
def histogramSteps (name : String) (labels : LabelSet) (h : Histogram Binary64) :
    List (List Char × (Histogram Binary64 → Histogram Binary64)) :=
  (h.buckets.map fun b =>
    (sampleLine (name ++ "_bucket") (labels.toList ++ [numberLabel boundLabel b.upperBound])
      (countText b.cumulativeCount), fun t => { t with buckets := t.buckets ++ [b.mapCount Count.reread] })) ++
    [(sampleLine (name ++ "_sum") labels.toList h.sampleSum.text, fun t => { t with sampleSum := h.sampleSum.plain }),
      (sampleLine (name ++ "_count") labels.toList (countText h.sampleCount),
        fun t => { t with sampleCount := h.sampleCount.reread })]

/-- The lines of a summary, and what each of them says of it. -/
def summarySteps (name : String) (labels : LabelSet) (s : Summary Binary64) :
    List (List Char × (Summary Binary64 → Summary Binary64)) :=
  (s.quantiles.map fun q =>
    (sampleLine name (labels.toList ++ [numberLabel quantileLabel q.share]) q.value.text,
      fun t => { t with quantiles := t.quantiles ++ [q.plain] })) ++
    [(sampleLine (name ++ "_sum") labels.toList s.sampleSum.text, fun t => { t with sampleSum := s.sampleSum.plain }),
      (sampleLine (name ++ "_count") labels.toList (countText s.sampleCount),
        fun t => { t with sampleCount := s.sampleCount.reread })]

theorem foldl_histogramSteps (name : String) (labels : LabelSet) (h : Histogram Binary64) :
    (histogramSteps name labels h).foldl (fun t s => s.2 t) noHistogram = (h.mapCounts Count.reread).plain := by
  obtain ⟨count, sum, buckets⟩ := h
  simp only [histogramSteps, List.foldl_append, List.foldl_map, foldl_buckets, List.foldl_cons, List.foldl_nil,
    noHistogram, List.nil_append, Histogram.mapCounts_mk, Histogram.plain_mk]

theorem foldl_summarySteps (name : String) (labels : LabelSet) (s : Summary Binary64) :
    (summarySteps name labels s).foldl (fun t s => s.2 t) noSummary = (s.mapCounts Count.reread).plain := by
  obtain ⟨count, sum, quantiles⟩ := s
  simp only [summarySteps, List.foldl_append, List.foldl_map, foldl_quantiles, List.foldl_cons, List.foldl_nil,
    noSummary, List.nil_append, Summary.mapCounts_mk, Summary.plain_mk]

section Gathered

variable {ds : Drafts} {name : String} (hnew : name ∉ ds.map Prod.fst) (hname : isMetricName name = true)
  {labels : LabelSet} (hlabels : labels.Spelled)
include hnew hname hlabels

theorem extends_histogramSteps {h : Histogram Binary64} (hown : ∀ l ∈ labels.toList, l.name ≠ boundLabel)
    (hord : h.Ordered) : ∀ s ∈ histogramSteps name labels h,
      Extends ds name .histogram s.1 fun d => d.onHistogram labels s.2 := by
  intro s hs
  rcases List.mem_append.mp hs with hs | hs
  · obtain ⟨b, hb, rfl⟩ := List.mem_map.mp hs
    refine extends_sampleLine hnew ((isSampleName_of_isMetricName hname).append (by decide))
      (spelled_append_numberLabel (.inl rfl) hlabels _) (spells_countText _)
      (resolve_suffix hnew (e := ("_bucket", .bucket)) (by decide) rfl)
      (splitLabels_numberLabel rfl hown (hord b hb) _ _) fun d => rfl
  · rcases List.mem_cons.mp hs with rfl | hs
    · exact extends_suffix hnew hname hlabels (e := ("_sum", .sum)) (by decide) rfl rfl (spells_text _) fun d _ => rfl
    · cases List.mem_singleton.mp hs
      exact extends_suffix hnew hname hlabels (e := ("_count", .count)) (by decide) rfl rfl (spells_countText _)
        fun d _ => rfl

theorem extends_summarySteps {s : Summary Binary64} (hown : ∀ l ∈ labels.toList, l.name ≠ quantileLabel)
    (hord : s.Ordered) (hfree : s.quantiles ≠ [] → ∀ base, ¬ ds.Claims base name) :
    ∀ t ∈ summarySteps name labels s, Extends ds name .summary t.1 fun d => d.onSummary labels t.2 := by
  intro t ht
  rcases List.mem_append.mp ht with ht | ht
  · obtain ⟨q, hq, rfl⟩ := List.mem_map.mp ht
    refine extends_sampleLine hnew (isSampleName_of_isMetricName hname)
      (spelled_append_numberLabel (.inr rfl) hlabels _) (spells_text _)
      (resolve_bare hnew (hfree (List.ne_nil_of_mem hq)))
      (splitLabels_numberLabel rfl hown (hord q hq) _ _) fun d => rfl
  · rcases List.mem_cons.mp ht with rfl | ht
    · exact extends_suffix hnew hname hlabels (e := ("_sum", .sum)) (by decide) rfl rfl (spells_text _) fun d _ => rfl
    · cases List.mem_singleton.mp ht
      exact extends_suffix hnew hname hlabels (e := ("_count", .count)) (by decide) rfl rfl (spells_countText _)
        fun d _ => rfl

end Gathered

/-! ## Metrics -/

/-- The label sets of which samples were gathered. -/
def Draft.gathered (d : Draft) : List LabelSet := d.histograms.map Prod.fst ++ d.summaries.map Prod.fst

/-- The draft with a metric as its lines say it. -/
def Draft.withMetric (d : Draft) (m : Metric Binary64) : Draft :=
  match m.value.printed with
  | .histogram h => { d with histograms := d.histograms ++ [(m.labels, h)] }
  | .summary s => { d with summaries := d.summaries ++ [(m.labels, s)] }
  | v => d.addMetric m.labels v

theorem foldlM_metricLines {ds : Drafts} {name : String} (hnew : name ∉ ds.map Prod.fst)
    (hname : isMetricName name = true) {m : Metric Binary64} (hm : m.Writable)
    (hfree : m.value.Bare → ∀ base, ¬ ds.Claims base name) {d : Draft} (hd : d.type = some m.value.type)
    (hfresh : m.value.type = .histogram ∨ m.value.type = .summary → m.labels ∉ d.gathered) :
    (metricLines name m).foldlM readLine (ds ++ [(name, d)]) = .ok (ds ++ [(name, d.opened.withMetric m)]) := by
  obtain ⟨hspelled, hord, hbound, hquantile⟩ := hm
  obtain ⟨labels, v, n⟩ := m
  have hline : ∀ {line g}, Extends ds name v.type line g →
      [line].foldlM readLine (ds ++ [(name, d)]) = .ok (ds ++ [(name, g d.opened)]) := by
    intro line g h
    rw [List.foldlM_cons, h d hd]
    rfl
  cases v with
  | counter x =>
    exact hline (extends_number hnew hname hspelled (hfree trivial) (fun h => by cases h) (fun _ _ _ => rfl) x)
  | gauge x =>
    exact hline (extends_number hnew hname hspelled (hfree trivial) (fun h => by cases h) (fun _ _ _ => rfl) x)
  | untyped x =>
    exact hline (extends_number hnew hname hspelled (hfree trivial) (fun h => by cases h) (fun _ _ _ => rfl) x)
  | histogram h =>
    have hlines : metricLines name ⟨labels, .histogram h, n⟩ = (histogramSteps name labels h).map Prod.fst := by
      simp [metricLines, totalLines, histogramSteps]
    have hmem : labels ∉ d.opened.histograms.map Prod.fst := fun hmem =>
      hfresh (.inl rfl) (List.mem_append_left _ hmem)
    rw [hlines, foldlM_gather (fun d f => d.onHistogram labels f) (fun _ _ => rfl) (fun _ _ => rfl)
      (fun d => d.onHistogram_onHistogram labels) (by simp [histogramSteps])
      (extends_histogramSteps hnew hname hspelled (hbound rfl) hord) hd, Draft.onHistogram,
      Appearance.alter_of_not_mem _ _ hmem, foldl_histogramSteps]
    rfl
  | summary s =>
    have hlines : metricLines name ⟨labels, .summary s, n⟩ = (summarySteps name labels s).map Prod.fst := by
      simp [metricLines, totalLines, summarySteps]
    have hmem : labels ∉ d.opened.summaries.map Prod.fst := fun hmem =>
      hfresh (.inr rfl) (List.mem_append_right _ hmem)
    rw [hlines, foldlM_gather (fun d f => d.onSummary labels f) (fun _ _ => rfl) (fun _ _ => rfl)
      (fun d => d.onSummary_onSummary labels) (by simp [summarySteps])
      (extends_summarySteps hnew hname hspelled (hquantile rfl) hord hfree) hd, Draft.onSummary,
      Appearance.alter_of_not_mem _ _ hmem, foldl_summarySteps]
    rfl

end TextFormat
end MetricGateway
