import MetricGateway.Proofs.Binary64.Order
import MetricGateway.Proofs.TextFormat.Families
import MetricGateway.Proofs.TextFormat.Readings

/-!
# Samples in another order

Samples are gathered by family, label set and part, so readings at different places can be entered in both orders
(`Drafts.enter_enter`). The drafts are then *alike*: they differ in the order of families, of metrics, of buckets with
different bounds and of quantiles with different shares. Such drafts become families that differ only in their order
and in that of their metrics (`Drafts.Alike.families`).
-/

namespace MetricGateway

/-- Histograms that differ at most in the order of buckets with different bounds. -/
structure Histogram.Alike (h h' : Histogram Binary64) : Prop where
  count : h.sampleCount = h'.sampleCount
  sum : h.sampleSum = h'.sampleSum
  buckets : Rearranged Bucket.upperBound h.buckets h'.buckets

/-- Summaries that differ at most in the order of quantiles with different shares. -/
structure Summary.Alike (s s' : Summary Binary64) : Prop where
  count : s.sampleCount = s'.sampleCount
  sum : s.sampleSum = s'.sampleSum
  quantiles : Rearranged Quantile.share s.quantiles s'.quantiles

/-- Families that differ at most in the order of their metrics. -/
structure Family.Alike (f g : Family) : Prop where
  name : f.name = g.name
  help : f.help = g.help
  type : f.type = g.type
  metrics : f.metrics.Perm g.metrics

theorem Histogram.Alike.refl (h : Histogram Binary64) : h.Alike h := ⟨rfl, rfl, .refl _⟩

theorem Histogram.Alike.trans {a b c : Histogram Binary64} (h : a.Alike b) (h' : b.Alike c) : a.Alike c :=
  ⟨h.count.trans h'.count, h.sum.trans h'.sum, h.buckets.trans h'.buckets⟩

theorem Summary.Alike.refl (s : Summary Binary64) : s.Alike s := ⟨rfl, rfl, .refl _⟩

theorem Summary.Alike.trans {a b c : Summary Binary64} (h : a.Alike b) (h' : b.Alike c) : a.Alike c :=
  ⟨h.count.trans h'.count, h.sum.trans h'.sum, h.quantiles.trans h'.quantiles⟩

/-- Sorting leaves nothing of the order. -/
theorem Histogram.Alike.normalize {h h' : Histogram Binary64} (hh : h.Alike h') : h.normalize = h'.normalize := by
  obtain ⟨count, sum, buckets⟩ := h
  obtain ⟨count', sum', buckets'⟩ := h'
  obtain ⟨rfl, rfl, hbuckets⟩ := hh
  simp only [Histogram.normalize, hbuckets.sortBy_eq]

theorem Summary.Alike.normalize {s s' : Summary Binary64} (hs : s.Alike s') : s.normalize = s'.normalize := by
  obtain ⟨count, sum, quantiles⟩ := s
  obtain ⟨count', sum', quantiles'⟩ := s'
  obtain ⟨rfl, rfl, hquantiles⟩ := hs
  simp only [Summary.normalize, hquantiles.sortBy_eq]

namespace TextFormat

/-! ## Parts -/

theorem Part.onHistogram_alike (p : Part) (v : Binary64) {h h' : Histogram Binary64} (hh : h.Alike h') :
    (p.onHistogram v h).Alike (p.onHistogram v h') := by
  cases p with
  | bucket bound => exact ⟨hh.count, hh.sum, hh.buckets.append (.refl _)⟩
  | sum => exact ⟨hh.count, rfl, hh.buckets⟩
  | count => exact ⟨rfl, hh.sum, hh.buckets⟩
  | number | quantile => exact hh

theorem Part.onSummary_alike (p : Part) (v : Binary64) {s s' : Summary Binary64} (hs : s.Alike s') :
    (p.onSummary v s).Alike (p.onSummary v s') := by
  cases p with
  | quantile share => exact ⟨hs.count, hs.sum, hs.quantiles.append (.refl _)⟩
  | sum => exact ⟨hs.count, rfl, hs.quantiles⟩
  | count => exact ⟨rfl, hs.sum, hs.quantiles⟩
  | number | bucket => exact hs

/-- Different parts of a histogram can be entered in both orders. -/
theorem Part.onHistogram_onHistogram {p q : Part} (hpq : p ≠ q) (v w : Binary64) (h : Histogram Binary64) :
    (q.onHistogram w (p.onHistogram v h)).Alike (p.onHistogram v (q.onHistogram w h)) := by
  cases p with
  | bucket bound =>
    cases q with
    | bucket bound' =>
      have hne : bound ≠ bound' := fun he => hpq (congrArg Part.bucket he)
      exact ⟨rfl, rfl, .swap hne h.buckets⟩
    | number | sum | count | quantile => exact .refl _
  | sum =>
    cases q with
    | sum => exact absurd rfl hpq
    | number | bucket | count | quantile => exact .refl _
  | count =>
    cases q with
    | count => exact absurd rfl hpq
    | number | bucket | sum | quantile => exact .refl _
  | number | quantile => exact .refl _

/-- Different parts of a summary can be entered in both orders. -/
theorem Part.onSummary_onSummary {p q : Part} (hpq : p ≠ q) (v w : Binary64) (s : Summary Binary64) :
    (q.onSummary w (p.onSummary v s)).Alike (p.onSummary v (q.onSummary w s)) := by
  cases p with
  | quantile share =>
    cases q with
    | quantile share' =>
      have hne : share ≠ share' := fun he => hpq (congrArg Part.quantile he)
      exact ⟨rfl, rfl, .swap hne s.quantiles⟩
    | number | bucket | sum | count => exact .refl _
  | sum =>
    cases q with
    | sum => exact absurd rfl hpq
    | number | bucket | count | quantile => exact .refl _
  | count =>
    cases q with
    | count => exact absurd rfl hpq
    | number | bucket | sum | quantile => exact .refl _
  | number | bucket => exact .refl _

/-! ## Drafts -/

/-- Drafts that gathered the same samples in another order. -/
structure Draft.Alike (d e : Draft) : Prop where
  help : d.help = e.help
  type : d.type = e.type
  metrics : d.metrics.Perm e.metrics
  histograms : Appearance.Alike Histogram.Alike d.histograms e.histograms
  summaries : Appearance.Alike Summary.Alike d.summaries e.summaries

theorem Draft.Alike.refl (d : Draft) : d.Alike d :=
  ⟨rfl, rfl, .refl _, .refl Histogram.Alike.refl _, .refl Summary.Alike.refl _⟩

theorem Draft.Alike.trans {a b c : Draft} (h : a.Alike b) (h' : b.Alike c) : a.Alike c where
  help := h.help.trans h'.help
  type := h.type.trans h'.type
  metrics := h.metrics.trans h'.metrics
  histograms := h.histograms.trans Histogram.Alike.trans h'.histograms
  summaries := h.summaries.trans Summary.Alike.trans h'.summaries

theorem Draft.Alike.enterAs {d e : Draft} (h : d.Alike e) (type : MetricType) (r : Reading) :
    (d.enterAs type r).Alike (e.enterAs type r) := by
  cases type with
  | counter | gauge | untyped => exact { h with metrics := h.metrics.append_right _ }
  | histogram =>
    exact { h with histograms := h.histograms.alter (.refl _) fun hvw => r.part.onHistogram_alike r.value hvw }
  | summary => exact { h with summaries := h.summaries.alter (.refl _) fun hvw => r.part.onSummary_alike r.value hvw }

/-- Readings of a family at different places can be entered in both orders. -/
theorem Draft.enterAs_enterAs (d : Draft) (type : MetricType) {x y : Reading} (hfamily : x.family = y.family)
    (hne : x.toPlace ≠ y.toPlace) : ((d.enterAs type x).enterAs type y).Alike ((d.enterAs type y).enterAs type x) := by
  have hpart : x.labels = y.labels → x.part ≠ y.part := by
    intro hlabels hpart
    obtain ⟨⟨f, l, p⟩, v⟩ := x
    obtain ⟨⟨f', l', p'⟩, v'⟩ := y
    cases hfamily; cases hlabels; cases hpart
    exact hne rfl
  have hswap : ∀ a b : Metric Binary64, (d.metrics ++ [a] ++ [b]).Perm (d.metrics ++ [b] ++ [a]) := by
    intro a b
    rw [List.append_assoc, List.append_assoc]
    exact (List.Perm.swap b a []).append_left d.metrics
  cases type with
  | counter | gauge | untyped => exact { Draft.Alike.refl d with metrics := hswap _ _ }
  | histogram =>
    refine { Draft.Alike.refl d with histograms := ?_ }
    exact Appearance.alike_alter_alter Histogram.Alike.refl _ fun hlabels =>
      Part.onHistogram_onHistogram (hpart hlabels) x.value y.value
  | summary =>
    refine { Draft.Alike.refl d with summaries := ?_ }
    exact Appearance.alike_alter_alter Summary.Alike.refl _ fun hlabels =>
      Part.onSummary_onSummary (hpart hlabels) x.value y.value

theorem Draft.Alike.opened {d e : Draft} (h : d.Alike e) : d.opened.Alike e.opened :=
  { h with type := by show some (d.type.getD _) = some (e.type.getD _); rw [h.type] }

theorem Draft.Alike.enter {d e : Draft} (h : d.Alike e) (r : Reading) : (d.enter r).Alike (e.enter r) := by
  unfold Draft.enter
  rw [h.type]
  exact h.opened.enterAs _ r

theorem Draft.opened_enter (d : Draft) (r : Reading) : (d.enter r).opened = d.enter r := by
  unfold Draft.enter
  cases d.type.getD .untyped <;> rfl

theorem Draft.enter_enter (d : Draft) {x y : Reading} (hfamily : x.family = y.family) (hne : x.toPlace ≠ y.toPlace) :
    ((d.enter x).enter y).Alike ((d.enter y).enter x) := by
  have henter : ∀ r s, (d.enter r).enter s = (d.enter r).enterAs (d.type.getD .untyped) s := by
    intro r s
    rw [enter, opened_enter, enter, type_enterAs]
    rfl
  rw [henter, henter]
  exact d.opened.enterAs_enterAs _ hfamily hne

/-! ## Texts -/

/-- The drafts of two texts that are alike under every name. -/
abbrev Drafts.Alike (ds es : Drafts) : Prop := Appearance.Alike Draft.Alike ds es

theorem Drafts.Alike.enter {ds es : Drafts} (h : ds.Alike es) (r : Reading) : (ds.enter r).Alike (es.enter r) :=
  Appearance.Alike.alter h (.refl _) fun hde => hde.enter r

/-- Readings at different places can be entered in both orders. -/
theorem Drafts.enter_enter (ds : Drafts) {x y : Reading} (hne : x.toPlace ≠ y.toPlace) :
    ((ds.enter x).enter y).Alike ((ds.enter y).enter x) :=
  Appearance.alike_alter_alter Draft.Alike.refl _ fun hfamily d => d.enter_enter hfamily hne

/-- Readings in another order, in which those at one place keep theirs, lead to drafts that are alike. -/
theorem Drafts.foldl_enter (ds : Drafts) {xs ys : List Reading} (h : Rearranged Reading.toPlace xs ys) :
    (xs.foldl Drafts.enter ds).Alike (ys.foldl Drafts.enter ds) :=
  h.foldl_rel (R := Drafts.Alike) (Appearance.Alike.refl Draft.Alike.refl)
    (fun h h' => Appearance.Alike.trans Draft.Alike.trans h h') (fun r h => h.enter r)
    (fun ds _ _ hne => ds.enter_enter hne) ds

/-! ## Families -/

theorem Draft.Alike.allMetrics {d e : Draft} (h : d.Alike e) (hd : d.Sound) (he : e.Sound) :
    d.allMetrics.Perm e.allMetrics := by
  refine (h.metrics.append ?_).append ?_
  · refine h.histograms.map_perm (fun {k v w} hvw => ?_) hd.nodup_histograms he.nodup_histograms
    dsimp only
    rw [hvw.normalize]
  · refine h.summaries.map_perm (fun {k v w} hvw => ?_) hd.nodup_summaries he.nodup_summaries
    dsimp only
    rw [hvw.normalize]

theorem Draft.Alike.family? {d e : Draft} (h : d.Alike e) (hd : d.Sound) (he : e.Sound) (name : String) :
    Option.Rel Family.Alike (d.family? name) (e.family? name) := by
  have hmetrics := h.allMetrics hd he
  unfold Draft.family?
  rw [h.type]
  cases e.type with
  | none => exact .none
  | some type =>
    dsimp only
    have hempty : d.allMetrics.isEmpty = e.allMetrics.isEmpty := by
      rw [Bool.eq_iff_iff, List.isEmpty_iff, List.isEmpty_iff]
      exact ⟨fun hn => List.nil_perm.mp (hn ▸ hmetrics), fun hn => List.perm_nil.mp (hn ▸ hmetrics)⟩
    rw [hempty]
    split
    · exact .none
    · exact .some ⟨rfl, h.help, rfl, hmetrics⟩

/-- Drafts that are alike become families that differ only in their order and in that of their metrics. -/
theorem Drafts.Alike.families {ds es : Drafts} (h : ds.Alike es) (hds : ds.Named) (hes : es.Named)
    (hds' : ∀ e ∈ ds, e.2.Sound) (hes' : ∀ e ∈ es, e.2.Sound) :
    ∃ gs, List.Forall₂ Family.Alike ds.families gs ∧ gs.Perm es.families := by
  obtain ⟨zs, hzs, hperm⟩ := Appearance.Alike.exists_perm h hds.nodup hes.nodup
  refine ⟨Drafts.families zs, forall₂_filterMap hzs fun a ha b hb hab => ?_, hperm.filterMap _⟩
  obtain ⟨name, d⟩ := a
  obtain ⟨name', e⟩ := b
  obtain ⟨rfl, hde⟩ : name = name' ∧ d.Alike e := hab
  exact hde.family? (hds' _ ha) (hes' _ (hperm.mem_iff.mp hb)) name

end TextFormat
end MetricGateway
