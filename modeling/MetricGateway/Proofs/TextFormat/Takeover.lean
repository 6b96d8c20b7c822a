import MetricGateway.Proofs.TextFormat.Exchange
import MetricGateway.Proofs.TextFormat.Families

/-!
# Samples that another family takes

Where a family claims the samples of a name, no sample that bears only this name comes to the draft of the name
(`Drafts.Taken`), whatever is read (`taken_of_foldlM`). So the family of the name, if it is read at all, has no metric
with such a sample (`not_bare_of_taken`).
-/

namespace MetricGateway.TextFormat

/-- No sample of the draft bears only the name of the family. -/
def Draft.Unnamed (d : Draft) : Prop := d.metrics = [] ∧ ∀ e ∈ d.summaries, e.2.quantiles = []

/-- A family claims the samples of a name, and the draft of this name has none that bears only the name. -/
structure Drafts.Taken (ds : Drafts) (base name : String) : Prop where
  claims : ds.Claims base name
  unnamed : ∀ e ∈ ds, e.1 = name → e.2.Unnamed

theorem unnamed_empty : Draft.Unnamed {} := ⟨rfl, by simp⟩

theorem Drafts.Taken.draft {ds : Drafts} {base name : String} (h : ds.Taken base name) : (ds.draft name).Unnamed := by
  unfold Drafts.draft
  cases hlook : ds.lookup name with
  | none => exact unnamed_empty
  | some d => exact h.unnamed _ (Appearance.mem_of_lookup hlook) rfl

/-- A sample with a suffix is gathered by label set. -/
theorem Draft.Unnamed.addition {d d' : Draft} (hd : d.Unnamed) {labels : LabelSet} {own value : Binary64}
    {type : MetricType} {kind : SampleKind} (hplain : kind ≠ .plain) (hquantile : kind ≠ .quantile)
    (h : d.Addition labels own value type kind d') : d'.Unnamed := by
  obtain ⟨hmetrics, hsummaries⟩ := hd
  have hgathered : ∀ f : Summary Binary64 → Summary Binary64, (∀ s, (f s).quantiles = s.quantiles) →
      ∀ e ∈ Appearance.alter labels noSummary f d.summaries, e.2.quantiles = [] := by
    intro f hf e he
    rcases Appearance.mem_alter he with he | rfl
    · exact hsummaries e he
    · rw [hf]
      cases hlook : d.summaries.lookup labels with
      | none => rfl
      | some s => exact hsummaries _ (Appearance.mem_of_lookup hlook)
  cases h with
  | number => exact absurd rfl hplain
  | quantile => exact absurd rfl hquantile
  | bucket | histogramSum | histogramCount => exact ⟨hmetrics, hsummaries⟩
  | summarySum | summaryCount => exact ⟨hmetrics, hgathered _ fun _ => rfl⟩

theorem Draft.Addition.type_eq {d d' : Draft} {labels : LabelSet} {own value : Binary64} {type : MetricType}
    {kind : SampleKind} (h : d.Addition labels own value type kind d') : d'.type = d.type := by
  cases h <;> rfl

/-- A change of one draft that keeps its type, if it has one, keeps what is claimed. -/
theorem Drafts.Claims.alter {ds : Drafts} {base sample : String} (h : ds.Claims base sample) {family : String}
    {initial : Draft} {f : Draft → Draft} (hf : ∀ type, (ds.draft family).type = some type →
      (f ((ds.lookup family).getD initial)).type = some type) :
    Drafts.Claims (Appearance.alter family initial f ds) base sample := by
  obtain ⟨e, he, hname, hbears⟩ := h
  refine ⟨e, he, hname, ?_⟩
  rw [Drafts.draft, Appearance.lookup_alter]
  split
  next hfamily =>
    subst hfamily
    cases htype : (ds.draft family).type with
    | none =>
      rw [htype] at hbears
      cases hbears
    | some type => rwa [Option.getD_some, hf type htype, ← htype]
  next => exact hbears

theorem Drafts.Taken.change {ds ds' : Drafts} {base name : String} (h : ds.Taken base name) (hchange : ds.Change ds') :
    ds'.Taken base name := by
  cases hchange with
  | @help family help =>
    refine ⟨h.claims.alter fun type htype => htype, fun e he hname => ?_⟩
    rcases Appearance.mem_alter he with he | rfl
    · exact h.unnamed e he hname
    · cases hname
      exact h.draft
  | @type family type _ hnew =>
    refine ⟨h.claims.alter fun type htype => ?_, fun e he hname => ?_⟩
    · rw [hnew] at htype
      cases htype
    rcases Appearance.mem_alter he with he | rfl
    · exact h.unnamed e he hname
    · cases hname
      exact h.draft
  | @sample sample family kind labels own value d _ hresolve _ _ hadd =>
    refine ⟨h.claims.alter fun type htype => ?_, fun e he hname => ?_⟩
    · rw [hadd.type_eq]
      exact Draft.type_opened htype
    rcases Appearance.mem_alter he with he | rfl
    · exact h.unnamed e he hname
    · obtain rfl : family = name := hname
      -- a sample that bears only the name would go to the family that claims it
      have hkind : kind ≠ .plain ∧ kind ≠ .quantile := suffix_of_resolve hresolve h.claims
      have hopened : (ds.draft family).opened.Unnamed := h.draft
      exact hopened.addition hkind.1 hkind.2 hadd

theorem taken_of_foldlM {ds ds' : Drafts} {base name : String} (h : ds.Taken base name) {lines : List (List Char)}
    (hread : lines.foldlM readLine ds = .ok ds') : ds'.Taken base name := by
  refine Outcome.foldlM_invariant (I := fun ds => ds.Taken base name) (fun ds line ds' hds hline => ?_) h hread
  rcases change_of_readLine hline with rfl | hchange
  · exact hds
  · exact hds.change hchange

theorem not_bare_of_taken {ds : Drafts} {base : String} {f : Family} (h : ds.Taken base f.name)
    (hf : f ∈ ds.families) : ∀ m ∈ f.metrics, ¬ m.value.Bare := by
  obtain ⟨⟨name, d⟩, he, hfam⟩ := List.mem_filterMap.mp hf
  obtain ⟨-, -, hf⟩ := Draft.family?_eq_some hfam
  have hname : f.name = name := by rw [hf]
  have hmetrics : f.metrics = d.allMetrics := by rw [hf]
  obtain ⟨hnone, hsummaries⟩ := h.unnamed _ he hname.symm
  intro m hm
  rcases Draft.mem_allMetrics (hmetrics ▸ hm) with hm | ⟨e, he, rfl⟩ | ⟨e, he, rfl⟩
  · rw [hnone] at hm
    cases hm
  · exact id
  · simp [MetricValue.Bare, Summary.normalize, hsummaries e he, Sorted.sortBy]

/-! ## Families in the order of their names -/

theorem lt_append {a b : List Char} (h : b ≠ []) : a < a ++ b := by
  induction a with
  | nil =>
    cases b with
    | nil => exact absurd rfl h
    | cons c b => simp
  | cons c a ih => simpa [List.cons_lt_cons_iff] using ih

/-- A family stands in front of those that it takes samples from. -/
theorem lt_of_takes {g f : Family} (h : g.Takes f) : g.name < f.name := by
  obtain ⟨⟨e, he, hname, -⟩, -⟩ := h
  have hne : ∀ e ∈ sampleSuffixes, e.1.toList ≠ [] := by decide
  rw [hname, String.lt_iff, String.toList_append]
  exact lt_append (hne e he)

/-- The first family that loses samples to another one finds them claimed. -/
theorem exists_taken {pre : List Family} {g f : Family} (hpre : ∀ h ∈ pre, h.Writable)
    (hnames : (pre.map Family.name).Nodup) (hfree : ∀ h ∈ pre, ∀ k ∈ pre, ¬ k.Takes h)
    (hnew : f.name ∉ pre.map Family.name) (hg : g ∈ pre) (htakes : g.Takes f) :
    ∃ ds : Drafts, (pre.flatMap familyLines).foldlM readLine [] = .ok ds ∧ ds.Taken g.name f.name := by
  obtain ⟨ds, hread, htypes, -⟩ := foldlM_families_nil hpre hnames hfree
  obtain ⟨⟨e, he, hname, hbears⟩, -⟩ := htakes
  have hkeys : ds.map Prod.fst = pre.map Family.name := by
    have hfst := congrArg (List.map Prod.fst) htypes
    rwa [List.map_map, List.map_map] at hfst
  refine ⟨ds, hread, ⟨e, he, hname, ?_⟩, fun e he hname => ?_⟩
  · have hmem : (g.name, some g.type) ∈ ds.map fun e => (e.1, e.2.type) := htypes ▸ List.mem_map_of_mem hg
    obtain ⟨⟨name, d⟩, hd, heq⟩ := List.mem_map.mp hmem
    obtain ⟨rfl, htype⟩ := Prod.mk.inj heq
    have hnodup : (ds.map Prod.fst).Nodup := hkeys ▸ hnames
    have hdraft : ds.draft g.name = d := by
      rw [Drafts.draft, Appearance.lookup_eq_some_of_mem hnodup hd]
      rfl
    rw [hdraft]
    exact htype ▸ hbears
  · have hmem := hkeys ▸ List.mem_map_of_mem he
    exact absurd (hname ▸ hmem) hnew

theorem mem_of_takes {pre post : List Family} {f g : Family}
    (hnames : (pre ++ f :: post).Pairwise fun f g => f.name < g.name) (hg : g ∈ pre ++ f :: post) (htakes : g.Takes f) :
    g ∈ pre := by
  obtain ⟨-, hpost, -⟩ := List.pairwise_append.mp hnames
  rcases List.mem_append.mp hg with hg | hg
  · exact hg
  · rcases List.mem_cons.mp hg with rfl | hg
    · exact absurd htakes g.not_takes_self
    · exact absurd (lt_of_takes htakes) (String.lt_asymm (List.rel_of_pairwise_cons hpost hg))

/-- The first family that loses samples loses them to one in front of it. -/
theorem exists_first_taken {fs : List Family} (hnames : fs.Pairwise fun f g => f.name < g.name)
    (h : ∃ f ∈ fs, ∃ g ∈ fs, g.Takes f) :
    ∃ pre f post g, fs = pre ++ f :: post ∧ g ∈ pre ∧ g.Takes f ∧ ∀ k ∈ pre, ∀ l ∈ pre, ¬ l.Takes k := by
  have hfound : (fs.find? fun f => decide (∃ g ∈ fs, g.Takes f)).isSome := by
    simpa [List.find?_isSome] using h
  obtain ⟨f, hf⟩ := Option.isSome_iff_exists.mp hfound
  obtain ⟨htaken, pre, post, rfl, hpre⟩ := List.find?_eq_some_iff_append.mp hf
  obtain ⟨g, hg, htakes⟩ := of_decide_eq_true htaken
  refine ⟨pre, f, post, g, rfl, mem_of_takes hnames hg htakes, htakes, fun k hk l hl hlk => ?_⟩
  have hnone : ¬ ∃ g ∈ pre ++ f :: post, g.Takes k := by simpa using hpre k hk
  exact hnone ⟨l, List.mem_append_left _ hl, hlk⟩

/-- **Samples that are taken are missed.** If every family with a sample that bears only its name is read with such a
sample again, then no family takes samples of another one. -/
theorem not_takes_of_read {fs gs : List Family} (hfs : ∀ f ∈ fs, f.Writable)
    (hnames : fs.Pairwise fun f g => f.name < g.name)
    (h : read ((fs.flatMap familyLines).flatMap Utf8.encode) = .ok gs)
    (hbare : ∀ f ∈ fs, (∃ m ∈ f.metrics, m.value.Bare) → ∃ g ∈ gs, g.name = f.name ∧ ∃ m ∈ g.metrics, m.value.Bare) :
    ∀ f ∈ fs, ∀ g ∈ fs, ¬ g.Takes f := by
  by_contra hcon
  push Not at hcon
  obtain ⟨pre, f, post, g, rfl, hg, htakes, hfree⟩ := exists_first_taken hnames hcon
  have hne : (pre ++ f :: post).Pairwise fun f g => f.name ≠ g.name := hnames.imp fun h => (String.ne_of_lt h)
  obtain ⟨hnepre, -, hnef⟩ := List.pairwise_append.mp hne
  have hnew : f.name ∉ pre.map Family.name := by
    intro hmem
    obtain ⟨k, hk, heq⟩ := List.mem_map.mp hmem
    exact hnef k hk f List.mem_cons_self heq
  obtain ⟨ds, hread, htaken⟩ := exists_taken (fun k hk => hfs k (List.mem_append_left _ hk))
    (List.pairwise_map.mpr hnepre) hfree hnew hg htakes
  -- from there on its samples are taken, whatever follows
  rw [← Utf8.encode_flatten, read, Utf8.decode_encode] at h
  have hlines := isLine_of_mem_flatMap_familyLines fun k hk => (hfs k hk).spelled
  obtain ⟨ds', hread', rfl⟩ := (readText_flatten hlines).mp h
  rw [List.flatMap_append, List.foldlM_append, hread] at hread'
  have htaken' := taken_of_foldlM htaken hread'
  obtain ⟨k, hk, hname, m, hm, hmbare⟩ := hbare f (List.mem_append_right _ List.mem_cons_self) htakes.2
  exact not_bare_of_taken (hname ▸ htaken') hk m hm hmbare

end MetricGateway.TextFormat
