import MetricGateway.Exposition
import MetricGateway.Proofs.Protobuf.Exchange
import MetricGateway.Proofs.Text.Utf8
import MetricGateway.Proofs.TextFormat.MetricLines

/-!
# Exchanging families in text

Families of different names that can be written (`Family.Writable`) and do not take each other's samples
(`Family.Takes`) are read back from their lines, in the same order, as these lines say them (`Family.printed`): with
their values in normal form, their counts as doubles, every NaN as the one NaN, and a help text without the padding at
its end (`read_flatMap_familyLines`).
-/

namespace MetricGateway

/-- A family whose names can be read from its lines. -/
structure Family.Spelled (f : Family) : Prop where
  name : isMetricName f.name = true
  labels : ∀ m ∈ f.metrics, m.labels.Spelled

/-- A family whose lines can be read. -/
structure Family.Writable (f : Family) : Prop where
  name : isMetricName f.name = true
  typed : ∀ m ∈ f.metrics, m.value.type = f.type
  writable : ∀ m ∈ f.metrics, m.Writable
  nonempty : f.metrics ≠ []
  /-- The samples of a distribution are gathered by label set. -/
  nodup : f.type = .histogram ∨ f.type = .summary → (f.metrics.map Metric.labels).Nodup

theorem Family.Writable.spelled {f : Family} (h : f.Writable) : f.Spelled :=
  ⟨h.name, fun m hm => (h.writable m hm).spelled⟩

/-- The metric as its lines say it. -/
def Metric.printed (m : Metric Binary64) : Metric Binary64 := { labels := m.labels, value := m.value.normalize.printed }

/-- The family as its lines say it. -/
def Family.printed (f : Family) : Family where
  name := f.name
  help := f.help.map fun help => String.ofList (TextFormat.settle help.toList)
  type := f.type
  metrics := f.metrics.map Metric.printed

/-- The family with every NaN taken for the one that a text has a word for. -/
def Family.plain (f : Family) : Family :=
  { f with metrics := f.metrics.map fun m => { m with value := m.value.plain } }

/-- The help has no padding at its end. -/
def Family.Settled (f : Family) : Prop := ∀ help ∈ f.help, TextFormat.settle help.toList = help.toList

instance (f : Family) : Decidable f.Settled := inferInstanceAs (Decidable (∀ help ∈ f.help, _))

/-- The counts of the family stand for doubles. -/
def Family.Rounded (f : Family) : Prop := ∀ m ∈ f.metrics, m.value.normalize.Rounded

instance (f : Family) : Decidable f.Rounded := inferInstanceAs (Decidable (∀ m ∈ f.metrics, _))

theorem Family.printed_eq_iff (f : Family) : f.printed = f.reread.plain ↔ f.Settled ∧ f.Rounded := by
  have hhelp : f.help.map (fun help => String.ofList (TextFormat.settle help.toList)) = f.help ↔
      ∀ help ∈ f.help, TextFormat.settle help.toList = help.toList := by
    cases f.help with
    | none => simp
    | some help =>
      rw [Option.map_some, Option.some.injEq, ← String.toList_inj, String.toList_ofList]
      simp
  have hmetric : ∀ m : Metric Binary64, m.printed = { m.reread with value := m.reread.value.plain } ↔
      m.value.normalize.Rounded := by
    intro m
    rw [← MetricValue.printed_eq_plain_iff]
    simp [Metric.printed, Metric.reread]
  rw [Settled, Rounded, ← hhelp, Family.printed, Family.plain, Family.reread]
  simp only [mk.injEq, true_and, List.map_map, List.map_inj_left, Function.comp_apply, hmetric]

/-- A family takes samples of another one whose name is its own with a suffix that it bears. -/
def Family.Takes (g f : Family) : Prop :=
  (∃ e ∈ TextFormat.sampleSuffixes, f.name = g.name ++ e.1 ∧ TextFormat.bearsSuffix (some g.type) e.2 = true) ∧
    ∃ m ∈ f.metrics, m.value.Bare

instance (g f : Family) : Decidable (g.Takes f) := inferInstanceAs (Decidable (_ ∧ _))

theorem Family.not_takes_self (f : Family) : ¬ f.Takes f := by
  rintro ⟨⟨e, he, hname, -⟩, -⟩
  exact TextFormat.append_suffix_ne he hname.symm

namespace TextFormat

/-! ## Drafts of metrics -/

/-- A draft has distributions of its own type only. -/
def Draft.Only (d : Draft) (type : MetricType) : Prop :=
  (type ≠ .histogram → d.histograms = []) ∧ (type ≠ .summary → d.summaries = [])

section WithMetric

variable {d : Draft} {m : Metric Binary64}

theorem Draft.type_withMetric (d : Draft) (m : Metric Binary64) : (d.withMetric m).type = d.type := by
  unfold withMetric
  split <;> rfl

theorem Draft.help_withMetric (d : Draft) (m : Metric Binary64) : (d.withMetric m).help = d.help := by
  unfold withMetric
  split <;> rfl

theorem Draft.mem_gathered_withMetric {labels : LabelSet} (h : labels ∈ (d.withMetric m).gathered) :
    labels ∈ d.gathered ∨ labels = m.labels := by
  unfold withMetric gathered at h
  unfold gathered
  split at h
  · simp only [List.map_append, List.mem_append] at h ⊢
    simp only [List.map_cons, List.map_nil, List.mem_singleton] at h
    tauto
  · simp only [List.map_append, List.mem_append] at h ⊢
    simp only [List.map_cons, List.map_nil, List.mem_singleton] at h
    tauto
  · exact .inl h

theorem Draft.Only.withMetric (h : d.Only m.value.type) : (d.withMetric m).Only m.value.type := by
  obtain ⟨hhist, hsum⟩ := h
  obtain ⟨labels, v, n⟩ := m
  cases v with
  | counter | gauge | untyped => exact ⟨hhist, hsum⟩
  | histogram => exact ⟨fun h => absurd rfl h, hsum⟩
  | summary => exact ⟨hhist, fun h => absurd rfl h⟩

theorem Draft.allMetrics_withMetric (h : d.Only m.value.type) :
    (d.withMetric m).allMetrics = d.allMetrics ++ [m.printed] := by
  obtain ⟨hhist, hsum⟩ := h
  obtain ⟨labels, v, n⟩ := m
  have hnormal : ({ labels, value := v.printed.normalize } : Metric Binary64) = Metric.printed ⟨labels, v, n⟩ :=
    congrArg (fun v => ({ labels, value := v } : Metric Binary64)) v.normalize_printed
  cases v with
  | counter | gauge | untyped =>
    have hhist : d.histograms = [] := hhist fun h => by cases h
    have hsum : d.summaries = [] := hsum fun h => by cases h
    simp [allMetrics, withMetric, MetricValue.printed, MetricValue.plain, MetricValue.mapCounts, addMetric, hhist, hsum]
    exact hnormal
  | histogram h =>
    have hsum : d.summaries = [] := hsum fun h => by cases h
    simp [allMetrics, withMetric, MetricValue.printed, MetricValue.plain, MetricValue.mapCounts, hsum]
    exact hnormal
  | summary s =>
    have hhist : d.histograms = [] := hhist fun h => by cases h
    simp [allMetrics, withMetric, MetricValue.printed, MetricValue.plain, MetricValue.mapCounts, hhist]
    exact hnormal

end WithMetric

/-! ## Drafts of families -/

/-- What the lines of metrics make of the last draft. -/
theorem foldlM_metrics {ds : Drafts} {name : String} (hnew : name ∉ ds.map Prod.fst)
    (hname : isMetricName name = true) {type : MetricType} {ms : List (Metric Binary64)}
    (hms : ∀ m ∈ ms, m.value.type = type ∧ m.Writable) (hfree : ∀ m ∈ ms, m.value.Bare → ∀ base, ¬ ds.Claims base name)
    (hnodup : type = .histogram ∨ type = .summary → (ms.map Metric.labels).Nodup) {d : Draft} (hd : d.type = some type)
    (honly : d.Only type) (hfresh : type = .histogram ∨ type = .summary → ∀ m ∈ ms, m.labels ∉ d.gathered) :
    ∃ d' : Draft, (ms.flatMap (metricLines name)).foldlM readLine (ds ++ [(name, d)]) = .ok (ds ++ [(name, d')]) ∧
      d'.type = some type ∧ d'.help = d.help ∧ d'.allMetrics = d.allMetrics ++ ms.map Metric.printed := by
  induction ms generalizing d with
  | nil => exact ⟨d, rfl, hd, rfl, by simp⟩
  | cons m ms ih =>
    obtain ⟨⟨rfl, hm⟩, hms⟩ := List.forall_mem_cons.mp hms
    obtain ⟨hmfree, hfree⟩ := List.forall_mem_cons.mp hfree
    have hd' : (d.opened.withMetric m).type = some m.value.type :=
      (Draft.type_withMetric _ _).trans (Draft.type_opened hd)
    have honly' : d.opened.Only m.value.type := honly
    have hread := foldlM_metricLines hnew hname hm hmfree hd fun h => hfresh h m List.mem_cons_self
    have hnodup' := fun h => List.nodup_cons.mp (hnodup h)
    have hfresh' : m.value.type = .histogram ∨ m.value.type = .summary →
        ∀ m' ∈ ms, m'.labels ∉ (d.opened.withMetric m).gathered := by
      intro h m' hm' hmem
      rcases Draft.mem_gathered_withMetric hmem with hmem | heq
      · exact hfresh h m' (List.mem_cons_of_mem _ hm') hmem
      · exact (hnodup' h).1 (heq ▸ List.mem_map_of_mem hm')
    obtain ⟨d', hread', htype, hhelp, hall⟩ := ih hms hfree (fun h => (hnodup' h).2) hd' honly'.withMetric hfresh'
    refine ⟨d', ?_, htype, ?_, ?_⟩
    · rw [List.flatMap_cons, List.foldlM_append, hread]
      exact hread'
    · rw [hhelp, Draft.help_withMetric]
      rfl
    · rw [hall, Draft.allMetrics_withMetric honly', List.map_cons, List.append_assoc]
      rfl

/-- The comments of a family make a draft with its help and its type. -/
theorem foldlM_comments {ds : Drafts} {f : Family} (hname : isMetricName f.name = true)
    (hnew : f.name ∉ ds.map Prod.fst) :
    (helpLines f ++ [commentLine "TYPE" f.name f.type.name.toList]).foldlM readLine ds =
      .ok (ds ++ [(f.name, { help := f.printed.help, type := some f.type })]) := by
  have hempty : ds.draft f.name = {} := by
    rw [Drafts.draft, Appearance.lookup_eq_none_iff.mpr hnew]
    rfl
  unfold helpLines Family.printed
  cases f.help with
  | none =>
    have htype := readLine_typeLine hname (show (ds.draft f.name).type = none by rw [hempty]) f.type
    rw [Appearance.alter_of_not_mem _ _ hnew] at htype
    rw [List.nil_append, List.foldlM_cons, htype]
    rfl
  | some help =>
    have hhelp := readLine_helpLine hname (show (ds.draft f.name).help = none by rw [hempty]) help
    rw [Appearance.alter_of_not_mem _ _ hnew] at hhelp
    have hnone : (Drafts.draft (ds ++ [(f.name, { help := some (String.ofList (settle help.toList)) })]) f.name).type =
        none := by rw [draft_last hnew]
    have htype := readLine_typeLine hname hnone f.type
    rw [Appearance.alter_append_singleton hnew] at htype
    rw [List.singleton_append, List.foldlM_cons, hhelp]
    show List.foldlM readLine _ [_] = _
    rw [List.foldlM_cons, htype]
    rfl

/-- The lines of a family make a draft of the family as they say it. -/
theorem foldlM_familyLines {ds : Drafts} {f : Family} (hf : f.Writable) (hnew : f.name ∉ ds.map Prod.fst)
    (hfree : ∀ m ∈ f.metrics, m.value.Bare → ∀ base, ¬ ds.Claims base f.name) :
    ∃ d : Draft, (familyLines f).foldlM readLine ds = .ok (ds ++ [(f.name, d)]) ∧ d.type = some f.type ∧
      d.family? f.name = some f.printed := by
  obtain ⟨d, hread, htype, hhelp, hall⟩ := foldlM_metrics hnew hf.name (fun m hm => ⟨hf.typed m hm, hf.writable m hm⟩)
    hfree hf.nodup (d := { help := f.printed.help, type := some f.type }) rfl ⟨fun _ => rfl, fun _ => rfl⟩
    (fun _ _ _ => List.not_mem_nil)
  have hlines : familyLines f = (helpLines f ++ [commentLine "TYPE" f.name f.type.name.toList]) ++
      f.metrics.flatMap (metricLines f.name) := by simp [familyLines]
  refine ⟨d, ?_, htype, ?_⟩
  · rw [hlines, List.foldlM_append, foldlM_comments hf.name hnew]
    exact hread
  · have hmetrics : d.allMetrics = f.metrics.map Metric.printed := hall
    have hne : (f.metrics.map Metric.printed).isEmpty = false := by simpa using hf.nonempty
    unfold Draft.family?
    rw [htype]
    dsimp only
    rw [hmetrics, if_neg (by simp [hne]), hhelp]
    rfl

theorem foldlM_families {ds : Drafts} {fs : List Family} (hfs : ∀ f ∈ fs, f.Writable)
    (hnames : (ds.map Prod.fst ++ fs.map Family.name).Nodup) (hfree : ∀ f ∈ fs, ∀ g ∈ fs, ¬ g.Takes f)
    (hclaims : ∀ f ∈ fs, ∀ m ∈ f.metrics, m.value.Bare → ∀ base, ¬ ds.Claims base f.name) :
    ∃ ds' : Drafts, (fs.flatMap familyLines).foldlM readLine ds = .ok (ds ++ ds') ∧
      (ds'.map fun e => (e.1, e.2.type)) = fs.map (fun f => (f.name, some f.type)) ∧
      ds'.families = fs.map Family.printed := by
  induction fs generalizing ds with
  | nil => exact ⟨[], by rw [List.append_nil]; rfl, rfl, rfl⟩
  | cons f fs ih =>
    obtain ⟨hf, hfs⟩ := List.forall_mem_cons.mp hfs
    have hnew : f.name ∉ ds.map Prod.fst := fun hmem =>
      (List.nodup_append.mp hnames).2.2 f.name hmem f.name List.mem_cons_self rfl
    obtain ⟨d, hread, htype, hfam⟩ := foldlM_familyLines hf hnew (hclaims f List.mem_cons_self)
    have hnames' : ((ds ++ [(f.name, d)]).map Prod.fst ++ fs.map Family.name).Nodup := by simpa using hnames
    have hclaims' : ∀ g ∈ fs, ∀ m ∈ g.metrics, m.value.Bare → ∀ base,
        ¬ Drafts.Claims (ds ++ [(f.name, d)]) base g.name := by
      rintro g hg m hm hbare base ⟨e, he, hname, hbears⟩
      by_cases hbase : f.name = base
      · subst hbase
        rw [draft_last hnew, htype] at hbears
        exact hfree g (List.mem_cons_of_mem _ hg) f List.mem_cons_self ⟨⟨e, he, hname, hbears⟩, m, hm, hbare⟩
      · rw [Drafts.draft, Appearance.lookup_append_singleton_of_ne hbase] at hbears
        exact hclaims g (List.mem_cons_of_mem _ hg) m hm hbare base ⟨e, he, hname, hbears⟩
    obtain ⟨ds', hread', htypes, hfams⟩ := ih hfs hnames'
      (fun g hg k hk => hfree g (List.mem_cons_of_mem _ hg) k (List.mem_cons_of_mem _ hk)) hclaims'
    refine ⟨(f.name, d) :: ds', ?_, ?_, ?_⟩
    · rw [List.flatMap_cons, List.foldlM_append, hread]
      exact hread'.trans (by rw [List.append_assoc]; rfl)
    · rw [List.map_cons, List.map_cons, htypes, htype]
    · show List.filterMap (fun e => Draft.family? e.1 e.2) ((f.name, d) :: ds') = _
      rw [List.filterMap_cons]
      dsimp only
      rw [hfam]
      exact congrArg (f.printed :: ·) hfams

theorem foldlM_families_nil {fs : List Family} (hfs : ∀ f ∈ fs, f.Writable) (hnames : (fs.map Family.name).Nodup)
    (hfree : ∀ f ∈ fs, ∀ g ∈ fs, ¬ g.Takes f) :
    ∃ ds : Drafts, (fs.flatMap familyLines).foldlM readLine [] = .ok ds ∧
      (ds.map fun e => (e.1, e.2.type)) = fs.map (fun f => (f.name, some f.type)) ∧
      ds.families = fs.map Family.printed := by
  have hnames' : ((([] : Drafts).map Prod.fst) ++ fs.map Family.name).Nodup := by simpa using hnames
  exact foldlM_families hfs hnames' hfree fun _ _ _ _ _ _ => not_claims_nil

/-! ## Texts of families -/

theorem isLine_of_mem_metricLines {name : String} (hname : isMetricName name = true) {m : Metric Binary64}
    (hm : m.labels.Spelled) {line : List Char} (h : line ∈ metricLines name m) : IsLine line := by
  have hspelled := isSampleName_of_isMetricName hname
  have htotal : ∀ sum count, ∀ line ∈ totalLines name m.labels sum count, IsLine line := by
    intro sum count line hline
    rcases List.mem_cons.mp hline with rfl | hline
    · exact isLine_sampleLine (hspelled.append (by decide)) hm (spells_text sum)
    · cases List.mem_singleton.mp hline
      exact isLine_sampleLine (hspelled.append (by decide)) hm (spells_countText count)
  obtain ⟨labels, v, n⟩ := m
  cases v with
  | counter v | gauge v | untyped v =>
    cases List.mem_singleton.mp h
    exact isLine_sampleLine hspelled hm (spells_text v)
  | histogram =>
    rcases List.mem_append.mp h with h | h
    · obtain ⟨b, -, rfl⟩ := List.mem_map.mp h
      exact isLine_sampleLine (hspelled.append (by decide)) (spelled_append_numberLabel (.inl rfl) hm _)
        (spells_countText _)
    · exact htotal _ _ line h
  | summary =>
    rcases List.mem_append.mp h with h | h
    · obtain ⟨q, -, rfl⟩ := List.mem_map.mp h
      exact isLine_sampleLine hspelled (spelled_append_numberLabel (.inr rfl) hm _) (spells_text _)
    · exact htotal _ _ line h

theorem isLine_of_mem_familyLines {f : Family} (hf : f.Spelled) {line : List Char} (h : line ∈ familyLines f) :
    IsLine line := by
  rcases List.mem_append.mp h with h | h
  · unfold helpLines at h
    split at h
    · cases h
    · cases List.mem_singleton.mp h
      exact isLine_commentLine hf.name (by decide) (not_mem_escapeHelp _)
  · rcases List.mem_cons.mp h with rfl | h
    · exact isLine_commentLine hf.name (by decide) (by cases f.type <;> decide)
    · obtain ⟨m, hm, h⟩ := List.mem_flatMap.mp h
      exact isLine_of_mem_metricLines hf.name (hf.labels m hm) h

theorem isLine_of_mem_flatMap_familyLines {fs : List Family} (hfs : ∀ f ∈ fs, f.Spelled) :
    ∀ line ∈ fs.flatMap familyLines, IsLine line := by
  intro line hline
  obtain ⟨f, hf, hline⟩ := List.mem_flatMap.mp hline
  exact isLine_of_mem_familyLines (hfs f hf) hline

/-- **Families come back from text as their lines say them.** -/
theorem read_flatMap_familyLines {fs : List Family} (hfs : ∀ f ∈ fs, f.Writable)
    (hnames : (fs.map Family.name).Nodup) (hfree : ∀ f ∈ fs, ∀ g ∈ fs, ¬ g.Takes f) :
    read ((fs.flatMap familyLines).flatMap Utf8.encode) = .ok (fs.map Family.printed) := by
  obtain ⟨ds, hread, -, hfams⟩ := foldlM_families_nil hfs hnames hfree
  have hlines := isLine_of_mem_flatMap_familyLines fun f hf => (hfs f hf).spelled
  rw [read, ← Utf8.encode_flatten, Utf8.decode_encode]
  exact (readText_flatten hlines).mpr ⟨ds, hread, hfams⟩

end TextFormat
end MetricGateway
