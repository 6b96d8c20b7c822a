import MetricGateway.Proofs.Store.Eviction

/-!
# Stores that hold only what a push job keeps alive

A store is *tracked* if every stored metric belongs to a job of its push-job table and nothing at all is stored without
such a job (`Store.Tracked`). A push that names a job keeps a store tracked whatever becomes of its families
(`tracked_ingestFamilies`), because the labels of the push win over those of the payload, and so does a sweep
(`tracked_sweep`). A sweep that finds every job stale empties a tracked store (`evict_eq_empty`).
-/

namespace MetricGateway

/-- The job of a metric is in the push-job table, where the job label is the one that the options name. -/
def Store.Tracks (s : Store) (m : Metric Binary64) : Prop :=
  ∃ job last, m.labels.get? s.options.jobLabel = some job ∧ s.pushJobs.get? job = some last

/-- Every stored metric has a tracked job, and without a tracked job there is no family. -/
structure Store.Tracked (s : Store) : Prop where
  tracks : ∀ name stored, s.families.get? name = some stored → ∀ m ∈ stored.family.metrics, s.Tracks m
  empty : (∀ job, s.pushJobs.get? job = none) → ∀ name, s.families.get? name = none

namespace Store

theorem tracked_new (o : StoreOptions) : (new o).Tracked :=
  ⟨fun _ _ h => (by cases h), fun _ _ => rfl⟩

/-! ## Pushes -/

section Push

variable {injected : List Label} {job : String}

/-- Every metric of a prepared family has the job of the push. -/
theorem get?_jobLabel_of_prepare {s : Store} (hign : s.options.ignored.contains s.options.jobLabel = false)
    (hjob : lastValue? s.options.jobLabel injected = some job) {f g : Family} (hg : s.prepare injected f = .ok g)
    {m : Metric Binary64} (hm : m ∈ g.metrics) : m.labels.get? s.options.jobLabel = some job := by
  obtain ⟨m₀, -, rfl⟩ := mem_metrics_of_prepare hg hm
  simp [LabelSet.get?_canonical, hign, hjob]

/-- A push of one family under a tracked job leaves the job table alone and stores only metrics that are tracked. -/
theorem tracked_ingestFamily {s t : Store} (hs : s.Tracked)
    (hign : s.options.ignored.contains s.options.jobLabel = false)
    (hjob : lastValue? s.options.jobLabel injected = some job) {last : Instant}
    (hlast : s.pushJobs.get? job = some last) {f : Family} (h : s.ingestFamily injected f = .ok t) :
    t.Tracked ∧ t.options = s.options ∧ t.pushJobs = s.pushJobs := by
  obtain ⟨g, hg, hcases⟩ := ingestFamily_eq_ok h
  have hnew : ∀ m ∈ g.metrics, s.Tracks m := fun m hm => ⟨job, last, get?_jobLabel_of_prepare hign hjob hg hm, hlast⟩
  -- what is stored under the name of the family is tracked, and everything else was stored before
  have hput : ∀ stored : StoredFamily, (∀ m ∈ stored.family.metrics, s.Tracks m) → (s.put g.name stored).Tracked := by
    intro stored hstored
    refine ⟨fun name old hold m hm => ?_, fun hnone => ?_⟩
    · rw [get?_put] at hold
      split at hold
      · cases hold
        exact hstored m hm
      · exact hs.tracks name old hold m hm
    · rw [show (s.put g.name stored).pushJobs = s.pushJobs from rfl] at hnone
      rw [hnone job] at hlast
      cases hlast
  obtain ⟨-, rfl⟩ | ⟨-, -, rfl⟩ | ⟨-, old, k, hold, hk, rfl⟩ := hcases
  · exact ⟨hs, rfl, rfl⟩
  · exact ⟨hput _ hnew, rfl, rfl⟩
  · refine ⟨hput _ fun m hm => ?_, rfl, rfl⟩
    rcases Family.mem_merge hk hm with hm | hm | ⟨a, ha, b, -, -, hc⟩
    · exact hs.tracks _ _ hold m hm
    · exact hnew m hm
    · obtain ⟨j, l, hj, hl⟩ := hs.tracks _ _ hold a ha
      exact ⟨j, l, by rw [Metric.labels_of_combine hc, hj], hl⟩

theorem tracked_ingestEach {s : Store} (hs : s.Tracked)
    (hign : s.options.ignored.contains s.options.jobLabel = false)
    (hjob : lastValue? s.options.jobLabel injected = some job) {last : Instant}
    (hlast : s.pushJobs.get? job = some last) (fs : List Family) : (s.ingestEach injected fs).1.Tracked := by
  induction fs generalizing s with
  | nil => exact hs
  | cons f fs ih =>
    unfold ingestEach
    split
    next t ht =>
      obtain ⟨hst, ho, hp⟩ := tracked_ingestFamily hs hign hjob hlast ht
      exact ih hst (by rw [ho]; exact hign) (by rw [ho]; exact hjob) (by rw [hp]; exact hlast)
    next => exact ih hs hign hjob hlast

/-- Noting one more job tracks no metric less. -/
theorem tracked_note {s : Store} (hs : s.Tracked) (now : Instant) (job : String) :
    Tracked { s with pushJobs := s.pushJobs.insert job now } := by
  refine ⟨fun name stored hstored m hm => ?_, fun hnone => ?_⟩
  · obtain ⟨j, l, hj, hl⟩ := hs.tracks name stored hstored m hm
    by_cases h : job = j
    · exact ⟨j, now, hj, by simp [h]⟩
    · exact ⟨j, l, hj, by simpa [h] using hl⟩
  · have := hnone job
    simp at this

/-- A push that names a job keeps a store tracked, also if some of its families are refused. -/
theorem tracked_ingestFamilies {s : Store} (hs : s.Tracked)
    (hign : s.options.ignored.contains s.options.jobLabel = false)
    (hjob : lastValue? s.options.jobLabel injected = some job) (now : Instant) (fs : List Family) :
    (s.ingestFamilies now injected fs).1.Tracked := by
  have hrecord : s.recordPush now injected = { s with pushJobs := s.pushJobs.insert job now } := by
    rw [recordPush, hjob]
  show ((s.recordPush now injected).ingestEach injected fs).1.Tracked
  rw [hrecord]
  have hnow : (s.pushJobs.insert job now).get? job = some now := by simp
  exact tracked_ingestEach (tracked_note hs now job) hign hjob hnow fs

end Push

/-! ## Sweeps -/

section Sweep

variable {s t : Store} {jobs : List String}

theorem LeftWithout.tracked (h : LeftWithout jobs s t) (hs : s.Tracked) : t.Tracked := by
  have hmetric : ∀ name stored, t.families.get? name = some stored →
      stored.family.metrics ≠ [] ∧ ∀ m ∈ stored.family.metrics, t.Tracks m := by
    intro name stored hstored
    obtain ⟨old, hold, rfl, hne⟩ := (h.families name stored).mp hstored
    refine ⟨hne, fun m hm => ?_⟩
    obtain ⟨hm, hkept⟩ := List.mem_filter.mp hm
    obtain ⟨job, last, hjob, hlast⟩ := hs.tracks name old hold m hm
    have hfresh : job ∉ jobs := by simpa [hjob] using hkept
    exact ⟨job, last, by rw [h.options, hjob], (h.pushJobs job last).mpr ⟨hlast, hfresh⟩⟩
  refine ⟨fun name stored h => (hmetric name stored h).2, fun hnone name => ?_⟩
  -- a family that is left has a metric, and the job of this metric is left too
  cases h : t.families.get? name with
  | none => rfl
  | some stored =>
    obtain ⟨hne, htracks⟩ := hmetric name stored h
    obtain ⟨m, hm⟩ := List.exists_mem_of_ne_nil _ hne
    obtain ⟨job, last, -, hlast⟩ := htracks m hm
    rw [hnone job] at hlast
    cases hlast

theorem Evicted.tracked (h : Evicted jobs s t) (hs : s.Tracked) : t.Tracked := by
  rcases h with ⟨-, rfl⟩ | ⟨-, h⟩
  · exact hs
  · exact h.tracked hs

theorem tracked_sweep (hs : s.Tracked) {now : Instant} {u : Store × SweepStats} (h : s.sweep now = some u) :
    u.1.Tracked := by
  rcases sweep_eq_some h with hu | ⟨cutoff, hu⟩
  · rw [hu]
    exact hs
  · rw [hu]
    exact (leftWithout_dropStale s cutoff).tracked hs

/-- Where every push lies before the cutoff, a sweep leaves no job, and so nothing that needs one. -/
theorem evict_eq_empty (hs : s.Tracked) {cutoff : Instant}
    (hstale : ∀ job last, s.pushJobs.get? job = some last → last < cutoff) :
    (∀ name, (s.evict cutoff).1.families.get? name = none) ∧ ∀ job, (s.evict cutoff).1.pushJobs.get? job = none := by
  obtain ⟨hevicted, -⟩ := s.evict_spec cutoff
  have hjobs : ∀ job, (s.evict cutoff).1.pushJobs.get? job = none := by
    intro job
    refine Option.eq_none_iff_forall_ne_some.mpr fun last hlast => ?_
    obtain ⟨hlast, hfresh⟩ := (hevicted.pushJobs job last).mp hlast
    exact hfresh (mem_staleJobs_iff.mpr ⟨last, hlast, hstale job last hlast⟩)
  exact ⟨(hevicted.tracked hs).empty hjobs, hjobs⟩

end Sweep

end Store
end MetricGateway
