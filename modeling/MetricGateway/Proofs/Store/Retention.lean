import MetricGateway.Proofs.Store.Exchange

/-!
# What a push can lose

Two metrics of one series that are not combined are summaries or of different types (`Metric.combine_eq_none_iff`), and
what a payload brings has the types of its families. So where only payloads are pushed, a merge loses no series unless
the family is a summary (`Family.Exchangeable.mem_labels_merge_iff`).

- Only a summary family is stored without metrics (`Filled`, `filled_run`).
- Metrics that a push combines are of one type (`Combines.type_eq`).
- Pushes keep every series of every other family (`Keeps`, `keeps_run`); only a sweep removes it.
-/

namespace MetricGateway

/-- When combining gives up a series. -/
theorem Metric.combine_eq_none_iff {policy : AggregationPolicy} {a b : Metric Binary64} :
    a.combine policy b = none ↔ a.value.type ≠ b.value.type ∨ a.value.type = .summary := by
  rw [Metric.combine, Option.map_eq_none_iff]
  cases a.value <;> cases b.value <;> simp [MetricValue.combine, MetricValue.type]

/-- A merge has the series of both families, unless they are summaries. -/
theorem Family.Exchangeable.mem_labels_merge_iff {policy : AggregationPolicy} {f g k : Family} (hf : f.Exchangeable)
    (hg : g.Exchangeable) (h : f.merge policy g = .ok k) (hsummary : f.type ≠ .summary) (labels : LabelSet) :
    labels ∈ k.metrics.map Metric.labels ↔
      labels ∈ f.metrics.map Metric.labels ∨ labels ∈ g.metrics.map Metric.labels := by
  obtain ⟨htype, rfl⟩ := (Family.merge_eq_ok_iff policy f g k).mp h
  refine Sorted.mem_map_unionBy_iff (fun a ha b hb _ => ?_) labels
  have hne : a.combine policy b ≠ none := by
    rw [Ne, Metric.combine_eq_none_iff, hf.typed a ha, hg.typed b hb]
    rintro (hdiff | hsum)
    · exact hdiff htype
    · exact hsummary hsum
  obtain ⟨c, hc⟩ := Option.ne_none_iff_exists'.mp hne
  exact ⟨c, hc, Metric.labels_of_combine hc⟩

/-- Pushing a payload. -/
def Operation.isPayload : Operation → Bool
  | push .. => true
  | _ => false

namespace Store

/-! ## Families without metrics -/

/-- Only summary families are without metrics. -/
def Filled (s : Store) : Prop :=
  ∀ name stored, s.families.get? name = some stored → stored.family.metrics = [] → stored.family.type = .summary

theorem Change.filled {s t : Store} (h : Change Family.Exchangeable s t) (hex : s.Exchangeable) (hs : s.Filled) :
    t.Filled := by
  intro name stored ht hnil
  cases h with
  | note => exact hs name stored ht hnil
  | install hf hg hne hnone =>
    rw [get?_put] at ht
    split at ht
    · cases ht
      exact absurd hnil hne
    · exact hs name stored ht hnil
  | @merge injected f g k old hf hg hne hold hk =>
    rw [get?_put] at ht
    split at ht
    · cases ht
      apply Classical.byContradiction
      intro hsummary
      have htype : old.family.type ≠ .summary := by
        obtain ⟨-, rfl⟩ := (Family.merge_eq_ok_iff _ _ _ _).mp hk
        exact hsummary
      -- the series of the pushed family would be there
      obtain ⟨m, hm⟩ := List.exists_mem_of_ne_nil _ hne
      have hmem := ((hex _ _ hold).mem_labels_merge_iff (hf.prepare hg) hk htype m.labels).mpr
        (.inr (List.mem_map_of_mem hm))
      change k.metrics = [] at hnil
      rw [hnil] at hmem
      cases hmem
    · exact hs name stored ht hnil
  | drop cutoff =>
    rw [get?_dropStale, Option.filter_eq_some_iff] at ht
    simp [hnil] at ht

theorem filled_run (o : StoreOptions) {ops : List Operation} (hops : ∀ op ∈ ops, op.given = []) :
    ((new o).run ops).Filled := by
  have hboth : ((new o).run ops).Exchangeable ∧ ((new o).run ops).Filled := by
    refine run_induction (I := fun s => s.Exchangeable ∧ s.Filled)
      (fun _ _ h hs => ⟨h.exchangeable hs.1, h.filled hs.1 hs.2⟩) ⟨exchangeable_new o, ?_⟩ ops
      fun op hop _ hf => Operation.exchangeable_of_given_eq_nil (hops op hop) hf
    intro name stored h
    cases h
  exact hboth.2

/-! ## Combined metrics -/

/-- Pushing the families combines the stored metric `a` with the incoming metric `b`: when the turn of a family comes
that the store accepts, they are metrics of one series. -/
def Combines (s : Store) (now : Instant) (injected : List Label) (fs : List Family) (a b : Metric Binary64) : Prop :=
  ∃ before f after g stored, fs = before ++ f :: after ∧
    (s.ingestFamilies now injected before).1.prepare injected f = .ok g ∧
    (s.ingestFamilies now injected before).1.families.get? g.name = some stored ∧
    stored.family.type = g.type ∧ a ∈ stored.family.metrics ∧ b ∈ g.metrics ∧ a.labels = b.labels

/-- What a push combines is of one type. -/
theorem Combines.type_eq {s : Store} {now : Instant} {injected : List Label} {fs : List Family} {a b : Metric Binary64}
    (h : s.Combines now injected fs a b) (hs : s.Exchangeable) (hfs : ∀ f ∈ fs, f.Exchangeable) :
    a.value.type = b.value.type := by
  obtain ⟨before, f, after, g, stored, rfl, hg, hstored, htype, ha, hb, -⟩ := h
  obtain ⟨hbefore, hrest⟩ := List.forall_mem_append.mp hfs
  have hf : f.Exchangeable := hrest f List.mem_cons_self
  calc a.value.type = stored.family.type := ((hs.ingestFamilies now injected hbefore) _ _ hstored).typed a ha
    _ = g.type := htype
    _ = b.value.type := ((hf.prepare hg).typed b hb).symm

/-! ## Series that stay -/

/-- Every family that is no summary is still stored with its type and all its series. -/
def Keeps (s t : Store) : Prop :=
  ∀ name stored, s.families.get? name = some stored → stored.family.type ≠ .summary →
    ∃ later, t.families.get? name = some later ∧ later.family.type = stored.family.type ∧
      stored.family.metrics.map Metric.labels ⊆ later.family.metrics.map Metric.labels

theorem Keeps.refl (s : Store) : s.Keeps s := fun _ stored h _ => ⟨stored, h, rfl, List.Subset.refl _⟩

theorem Keeps.trans {s t u : Store} (hst : s.Keeps t) (htu : t.Keeps u) : s.Keeps u := by
  intro name stored h hsummary
  obtain ⟨later, hlater, htype, hsub⟩ := hst name stored h hsummary
  obtain ⟨last, hlast, htype', hsub'⟩ := htu name later hlater (htype ▸ hsummary)
  exact ⟨last, hlast, htype'.trans htype, List.Subset.trans hsub hsub'⟩

theorem keeps_ingestFamily {s t : Store} (hs : s.Exchangeable) {injected : List Label} {f : Family}
    (hf : f.Exchangeable) (h : s.ingestFamily injected f = .ok t) : s.Keeps t := by
  obtain ⟨g, hg, ⟨-, rfl⟩ | ⟨-, hnone, rfl⟩ | ⟨-, old, k, hold, hk, rfl⟩⟩ := ingestFamily_eq_ok h
  · exact .refl t
  · intro name stored hstored hsummary
    have hname : g.name ≠ name := by
      rintro rfl
      rw [hnone] at hstored
      cases hstored
    exact ⟨stored, by rw [get?_put, if_neg hname, hstored], rfl, List.Subset.refl _⟩
  · intro name stored hstored hsummary
    by_cases hname : g.name = name
    · subst hname
      cases hold.symm.trans hstored
      refine ⟨_, by rw [get?_put, if_pos rfl], ?_, fun labels hlabels => ?_⟩
      · obtain ⟨-, rfl⟩ := (Family.merge_eq_ok_iff _ _ _ _).mp hk
        rfl
      · exact ((hs _ _ hold).mem_labels_merge_iff (hf.prepare hg) hk hsummary labels).mpr (.inl hlabels)
    · exact ⟨stored, by rw [get?_put, if_neg hname, hstored], rfl, List.Subset.refl _⟩

/-- Whether its families are accepted or refused, a push keeps what was stored. -/
theorem keeps_ingestFamilies {s : Store} (hs : s.Exchangeable) (now : Instant) (injected : List Label)
    {fs : List Family} (hfs : ∀ f ∈ fs, f.Exchangeable) : s.Keeps (s.ingestFamilies now injected fs).1 := by
  have hrecord := s.families_recordPush now injected
  have hstart : (s.recordPush now injected).Exchangeable ∧ s.Keeps (s.recordPush now injected) := by
    constructor
    · intro name stored h
      exact hs name stored (hrecord ▸ h)
    · intro name stored h _
      exact ⟨stored, hrecord ▸ h, rfl, List.Subset.refl _⟩
  refine (ingestEach_invariant (I := fun t => t.Exchangeable ∧ s.Keeps t) (fun t u f hf h ht => ?_) hstart).2
  refine ⟨exchangeable_of_changes (changes_ingestFamily (hfs f hf) h) ht.1, ?_⟩
  exact ht.2.trans (keeps_ingestFamily ht.1 (hfs f hf) h)

theorem keeps_ingest {s : Store} (hs : s.Exchangeable) (now : Instant) (injected : List Label)
    (format : ExpositionFormat) (payload : List UInt8) : s.Keeps (s.ingest now injected format payload).1 := by
  unfold ingest
  split
  · exact .refl s
  next fs hr =>
    exact keeps_ingestFamilies hs now injected fun f hf => ((ExpositionFormat.exchangeable_of_read hr).2 f hf).1

/-- Pushes of payloads, one after the other, keep what was stored. -/
theorem keeps_run {s : Store} (hs : s.Exchangeable) {pushes : List Operation}
    (hpushes : ∀ op ∈ pushes, op.isPayload = true) : s.Keeps (s.run pushes) := by
  induction pushes generalizing s with
  | nil => exact .refl s
  | cons op pushes ih =>
    obtain ⟨hop, hrest⟩ := List.forall_mem_cons.mp hpushes
    cases op with
    | push now injected format payload =>
      have ht : (s.perform (.push now injected format payload)).Exchangeable :=
        exchangeable_of_changes (changes_perform s _ fun _ hf => Operation.exchangeable_of_given_eq_nil rfl hf) hs
      exact (keeps_ingest hs now injected format payload).trans (ih ht hrest)
    | pushFamilies => cases hop
    | sweep => cases hop

/-- **A push loses no series that is not a summary.** In every store to which only payloads were pushed, each metric has
a value of the type of its family, and a family without metrics is a summary family. When a payload is pushed, metrics
that are combined are of one type, so only summaries are given up. Pushes, however many, keep every series of every
other family. -/
theorem pushes_lose_only_summaries (o : StoreOptions) {ops : List Operation} (hops : ∀ op ∈ ops, op.given = []) :
    let s := (new o).run ops
    (∀ name stored, s.families.get? name = some stored →
        (∀ m ∈ stored.family.metrics, m.value.type = stored.family.type) ∧
          (stored.family.metrics = [] → stored.family.type = .summary)) ∧
      (∀ now injected format payload fs, ExpositionFormat.read format payload = .ok fs →
        ∀ a b, s.Combines now injected fs a b →
          a.value.type = b.value.type ∧ ∀ policy, a.combine policy b = none → a.value.type = .summary) ∧
      ∀ pushes, (∀ op ∈ pushes, op.isPayload = true) → s.Keeps (s.run pushes) := by
  intro s
  have hs : s.Exchangeable := exchangeable_run o ops hops
  refine ⟨?_, ?_, ?_⟩
  · intro name stored h
    exact ⟨(hs name stored h).typed, filled_run o hops name stored h⟩
  · intro now injected format payload fs hr a b hab
    have htype := hab.type_eq hs fun f hf => ((ExpositionFormat.exchangeable_of_read hr).2 f hf).1
    refine ⟨htype, fun policy hnone => ?_⟩
    exact (Metric.combine_eq_none_iff.mp hnone).resolve_left fun hne => hne htype
  · intro pushes hpushes
    exact keeps_run hs hpushes

/-- A payload of a counter and a summary. -/
def summaryPayload : List UInt8 :=
  Utf8.bytesOf "# TYPE requests counter\nrequests\x7bpath=\"/\"\x7d 0\n# TYPE seconds summary\nseconds_count 1\n"

/-- The payload is pushed twice. -/
def summaryPushes : List Operation := [.push 0 [] .text summaryPayload, .sweep 1, .push 2 [] .text summaryPayload]

/-- The series of the counter with the given number of samples. -/
def requestsSampled (n : Count) : Metric Binary64 :=
  { labels := LabelSet.empty.insert ⟨"path", "/"⟩, value := .counter .zero, observations := n }

/-- The families of the payload. -/
def summaryRead : List Family := [requestsOf ⟨"path", "/"⟩,
  { name := "seconds", type := .summary, metrics := [{ labels := .empty, value := .summary ⟨1, .zero, []⟩ }] }]

/-- The two summaries have cancelled each other and the two counters are one. A third push combines the counter again,
and keeps it. -/
theorem pushes_lose_only_summaries_summaryPushes :
    let s := (new { ttl := some 5 }).run summaryPushes
    (∀ op ∈ summaryPushes, op.given = []) ∧ ExpositionFormat.text.read summaryPayload = .ok summaryRead ∧
      (∃ stored, s.families.get? "seconds" = some stored ∧ stored.family.metrics = [] ∧
        stored.family.type = .summary) ∧
      s.Combines 3 [] summaryRead (requestsSampled 2) (requestsSampled 1) ∧
      (requestsSampled 2).value.type = (requestsSampled 1).value.type ∧
      s.Keeps (s.run [.push 3 [] .text summaryPayload]) := by
  intro s
  have hops : ∀ op ∈ summaryPushes, op.given = [] := by decide
  have hread : ExpositionFormat.text.read summaryPayload = .ok summaryRead := by decide +kernel
  have hseconds : (s.families.get? "seconds").map (·.family.metrics) = some [] := by decide +kernel
  have hrequests : (s.families.get? "requests").map (·.family) =
      some { requestsOf ⟨"path", "/"⟩ with metrics := [requestsSampled 2] } := by decide +kernel
  have hprepare : (s.ingestFamilies 3 [] []).1.prepare [] (requestsOf ⟨"path", "/"⟩) =
      .ok (requestsOf ⟨"path", "/"⟩) := by decide +kernel
  obtain ⟨seconds, hgetSeconds, hnil⟩ := Option.map_eq_some_iff.mp hseconds
  obtain ⟨requests, hgetRequests, hfamily⟩ := Option.map_eq_some_iff.mp hrequests
  have hcombines : s.Combines 3 [] summaryRead (requestsSampled 2) (requestsSampled 1) := by
    refine ⟨[], _, _, _, requests, rfl, hprepare, hgetRequests, ?_, ?_, List.mem_singleton_self _, rfl⟩
    · rw [hfamily]
    · rw [hfamily]
      exact List.mem_singleton_self _
  obtain ⟨hstored, hcombined, hkept⟩ := pushes_lose_only_summaries { ttl := some 5 } hops
  exact ⟨hops, hread, ⟨seconds, hgetSeconds, hnil, (hstored _ seconds hgetSeconds).2 hnil⟩, hcombines,
    (hcombined 3 [] .text summaryPayload summaryRead hread _ _ hcombines).1, hkept _ (by decide)⟩

end Store
end MetricGateway
