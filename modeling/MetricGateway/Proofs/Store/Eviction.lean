import MetricGateway.Proofs.Store.Invariant

/-!
# What a sweep removes

A sweep with a cutoff removes the jobs whose last push lies before it (`staleJobs`) and all that belongs to them: what
is left keeps its place and its contents, and a family stays exactly if one of its metrics does (`LeftWithout`). There
is only one such store (`LeftWithout.unique`), and leaving out some jobs and then others leaves out both
(`LeftWithout.trans`). Without stale jobs nothing changes, not even a family without metrics (`Evicted`).

The statistics are counted on the way. They are exactly what the store has lost (`SweepStats.IsLoss`), also where a
family without metrics goes that had none before.
-/

namespace MetricGateway

/-- The metrics that belong to none of the jobs: they have no job label or name another job. -/
def metricsWithout (jobs : List String) (jobLabel : String) (ms : List (Metric Binary64)) : List (Metric Binary64) :=
  ms.filter fun m => (m.labels.get? jobLabel).all (· ∉ jobs)

/-- A stored family with those of its metrics that belong to none of the jobs. -/
def StoredFamily.without (jobs : List String) (jobLabel : String) (stored : StoredFamily) : StoredFamily :=
  { stored with family := { stored.family with metrics := metricsWithout jobs jobLabel stored.family.metrics } }

/-- Leaving out some jobs and then others leaves out both. -/
theorem StoredFamily.without_append (jobs others : List String) (jobLabel : String) (stored : StoredFamily) :
    stored.without (jobs ++ others) jobLabel = (stored.without jobs jobLabel).without others jobLabel := by
  have hfilter : ∀ ms : List (Metric Binary64), metricsWithout (jobs ++ others) jobLabel ms =
      metricsWithout others jobLabel (metricsWithout jobs jobLabel ms) := by
    intro ms
    rw [metricsWithout, metricsWithout, metricsWithout, List.filter_filter]
    refine List.filter_congr fun m _ => ?_
    cases m.labels.get? jobLabel <;> simp [Bool.and_comm]
  simp only [without, hfilter]

theorem metricsWithout_congr {jobs others : List String} (h : ∀ job, job ∈ jobs ↔ job ∈ others) (jobLabel : String)
    (ms : List (Metric Binary64)) : metricsWithout jobs jobLabel ms = metricsWithout others jobLabel ms := by
  simp only [metricsWithout, h]

namespace Store

/-- The jobs whose last push lies before the cutoff. -/
def staleJobs (s : Store) (cutoff : Instant) : List String := (s.pushJobs.entries.filter (·.2 < cutoff)).map Prod.fst

/-- The store `t` is what is left of `s` without the jobs and all that belongs to them: the other jobs with their last
pushes, and of each family the metrics of no such job, in their order, unless none is left. -/
structure LeftWithout (jobs : List String) (s t : Store) : Prop where
  options : t.options = s.options
  pushJobs : ∀ job last, t.pushJobs.get? job = some last ↔ s.pushJobs.get? job = some last ∧ job ∉ jobs
  families : ∀ name stored, t.families.get? name = some stored ↔
    ∃ old, s.families.get? name = some old ∧ stored = old.without jobs s.options.jobLabel ∧ stored.family.metrics ≠ []

section LeftWithout

variable {jobs others : List String} {s t u : Store}

theorem LeftWithout.unique (ht : LeftWithout jobs s t) (hu : LeftWithout jobs s u) : t = u := by
  have hjobs : t.pushJobs = u.pushJobs := Table.ext_get? fun job => Option.ext fun last => by
    rw [ht.pushJobs, hu.pushJobs]
  have hfamilies : t.families = u.families := Table.ext_get? fun name => Option.ext fun stored => by
    rw [ht.families, hu.families]
  have hoptions := ht.options.trans hu.options.symm
  cases t
  cases u
  cases hjobs
  cases hfamilies
  cases hoptions
  rfl

theorem LeftWithout.congr (ht : LeftWithout jobs s t) (h : ∀ job, job ∈ jobs ↔ job ∈ others) :
    LeftWithout others s t where
  options := ht.options
  pushJobs job last := by rw [ht.pushJobs, h]
  families name stored := by simp only [ht.families, StoredFamily.without, metricsWithout_congr h]

theorem LeftWithout.trans (ht : LeftWithout jobs s t) (hu : LeftWithout others t u) :
    LeftWithout (jobs ++ others) s u where
  options := hu.options.trans ht.options
  pushJobs job last := by rw [hu.pushJobs, ht.pushJobs, List.mem_append, not_or, and_assoc]
  families name stored := by
    rw [hu.families, ht.options]
    constructor
    · rintro ⟨mid, hmid, rfl, hne⟩
      obtain ⟨old, hold, rfl, -⟩ := (ht.families _ _).mp hmid
      exact ⟨old, hold, (old.without_append _ _ _).symm, hne⟩
    · rintro ⟨old, hold, rfl, hne⟩
      rw [StoredFamily.without_append] at hne ⊢
      refine ⟨_, (ht.families _ _).mpr ⟨old, hold, rfl, fun hnil => hne ?_⟩, rfl, hne⟩
      -- a family with metrics in the end had some in between
      show metricsWithout others _ (old.without jobs _).family.metrics = []
      rw [hnil]
      rfl

/-- The store `t` is what becomes of `s` when the jobs are evicted: the same, if there are none. -/
def Evicted (jobs : List String) (s t : Store) : Prop := (jobs = [] ∧ t = s) ∨ (jobs ≠ [] ∧ LeftWithout jobs s t)

theorem Evicted.unique (ht : Evicted jobs s t) (hu : Evicted jobs s u) : t = u := by
  rcases ht with ⟨hnil, rfl⟩ | ⟨hne, ht⟩
  · rcases hu with ⟨-, rfl⟩ | ⟨hne, -⟩
    · rfl
    · exact absurd hnil hne
  · rcases hu with ⟨hnil, -⟩ | ⟨-, hu⟩
    · exact absurd hnil hne
    · exact ht.unique hu

theorem Evicted.congr (ht : Evicted jobs s t) (h : ∀ job, job ∈ jobs ↔ job ∈ others) : Evicted others s t := by
  have hnil : jobs = [] ↔ others = [] := by simp only [List.eq_nil_iff_forall_not_mem, h]
  exact ht.imp (fun ht => ⟨hnil.mp ht.1, ht.2⟩) fun ht => ⟨fun ho => ht.1 (hnil.mpr ho), ht.2.congr h⟩

theorem Evicted.trans (ht : Evicted jobs s t) (hu : Evicted others t u) : Evicted (jobs ++ others) s u := by
  rcases ht with ⟨rfl, rfl⟩ | ⟨hne, ht⟩
  · exact hu
  · refine .inr ⟨List.append_ne_nil_of_left_ne_nil hne others, ?_⟩
    rcases hu with ⟨rfl, rfl⟩ | ⟨-, hu⟩
    · rw [List.append_nil]
      exact ht
    · exact ht.trans hu

theorem Evicted.options (h : Evicted jobs s t) : t.options = s.options := by
  rcases h with ⟨-, rfl⟩ | ⟨-, h⟩
  · rfl
  · exact h.options

theorem Evicted.pushJobs (h : Evicted jobs s t) (job : String) (last : Instant) :
    t.pushJobs.get? job = some last ↔ s.pushJobs.get? job = some last ∧ job ∉ jobs := by
  rcases h with ⟨rfl, rfl⟩ | ⟨-, h⟩
  · simp
  · exact h.pushJobs job last

end LeftWithout

/-! ## Stale jobs -/

theorem mem_staleJobs_iff {s : Store} {cutoff : Instant} {job : String} :
    job ∈ s.staleJobs cutoff ↔ ∃ last, s.pushJobs.get? job = some last ∧ last < cutoff := by
  simp only [staleJobs, List.mem_map, List.mem_filter, Prod.exists, Table.mem_entries_iff, decide_eq_true_eq]
  constructor
  · rintro ⟨_, last, h, rfl⟩
    exact ⟨last, h⟩
  · rintro ⟨last, h⟩
    exact ⟨job, last, h, rfl⟩

theorem isStale_eq (s : Store) (cutoff : Instant) (job : String) :
    s.isStale cutoff job = decide (job ∈ s.staleJobs cutoff) := by
  rw [Bool.eq_iff_iff, decide_eq_true_iff, mem_staleJobs_iff]
  cases h : s.pushJobs.get? job <;> simp [isStale, h]

theorem any_isStale_iff (s : Store) (cutoff : Instant) :
    s.pushJobs.keys.any (s.isStale cutoff) = true ↔ s.staleJobs cutoff ≠ [] := by
  simp only [Table.any_keys_iff, isStale_eq, decide_eq_true_eq]
  constructor
  · rintro ⟨job, -, -, hjob⟩
    exact List.ne_nil_of_mem hjob
  · intro hne
    obtain ⟨job, hjob⟩ := List.exists_mem_of_ne_nil _ hne
    obtain ⟨last, hlast, -⟩ := mem_staleJobs_iff.mp hjob
    exact ⟨job, last, hlast, hjob⟩

theorem withoutStale_eq (s : Store) (cutoff : Instant) (stored : StoredFamily) :
    s.withoutStale cutoff stored = stored.without (s.staleJobs cutoff) s.options.jobLabel := by
  have hkept : ∀ m : Metric Binary64, (!s.belongsToStale cutoff m) =
      (m.labels.get? s.options.jobLabel).all (· ∉ s.staleJobs cutoff) := by
    intro m
    rw [belongsToStale]
    cases m.labels.get? s.options.jobLabel <;> simp [isStale_eq]
  simp only [withoutStale, StoredFamily.without, metricsWithout, hkept]

theorem leftWithout_dropStale (s : Store) (cutoff : Instant) :
    LeftWithout (s.staleJobs cutoff) s (s.dropStale cutoff) where
  options := rfl
  pushJobs job last := by simp [get?_pushJobs_dropStale, isStale_eq, Option.filter_eq_some_iff]
  families name stored := by
    rw [get?_dropStale, Option.filter_eq_some_iff, Option.map_eq_some_iff]
    constructor
    · rintro ⟨⟨old, hold, rfl⟩, hne⟩
      exact ⟨old, hold, withoutStale_eq s cutoff old, by simpa using hne⟩
    · rintro ⟨old, hold, rfl, hne⟩
      exact ⟨⟨old, hold, withoutStale_eq s cutoff old⟩, by simpa using hne⟩

/-! ## Statistics -/

end Store

/-- The statistics are exactly what the later store `t` lacks of the store `s`. -/
structure SweepStats.IsLoss (stats : SweepStats) (s t : Store) : Prop where
  metrics : stats.metrics + t.metricCount = s.metricCount
  families : stats.families + t.families.size = s.families.size
  jobs : stats.jobs + t.pushJobs.size = s.pushJobs.size

theorem SweepStats.IsLoss.unique {a b : SweepStats} {s t : Store} (ha : a.IsLoss s t) (hb : b.IsLoss s t) : a = b := by
  have hmetrics : a.metrics = b.metrics := Nat.add_right_cancel (ha.metrics.trans hb.metrics.symm)
  have hfamilies : a.families = b.families := Nat.add_right_cancel (ha.families.trans hb.families.symm)
  have hjobs : a.jobs = b.jobs := Nat.add_right_cancel (ha.jobs.trans hb.jobs.symm)
  cases a
  cases b
  cases hmetrics
  cases hfamilies
  cases hjobs
  rfl

namespace Store

theorem isLoss_self (s : Store) : SweepStats.IsLoss {} s s := ⟨Nat.zero_add _, Nat.zero_add _, Nat.zero_add _⟩

/-- Counting family by family gives what is lost in total, if no family grows and those without metrics go. -/
theorem foldl_count {w : StoredFamily → StoredFamily}
    (hw : ∀ stored, (w stored).family.metrics.length ≤ stored.family.metrics.length)
    (es : List (String × StoredFamily)) (t : SweepStats) :
    let stats := es.foldl (fun t e => t.count e.2 (w e.2)) t
    let left := (es.map fun e => (e.1, w e.2)).filter fun e => !e.2.family.metrics.isEmpty
    stats.metrics + (left.flatMap fun e => e.2.family.metrics).length =
        t.metrics + (es.flatMap fun e => e.2.family.metrics).length ∧
      stats.families + left.length = t.families + es.length := by
  induction es generalizing t with
  | nil => exact ⟨rfl, rfl⟩
  | cons e es ih =>
    obtain ⟨hmetrics, hfamilies⟩ := ih (t.count e.2 (w e.2))
    have hle := hw e.2
    simp only [List.foldl_cons, List.map_cons, List.flatMap_cons, List.length_append, List.length_cons]
    cases hempty : (w e.2).family.metrics.isEmpty with
    | true =>
      have hnil : (w e.2).family.metrics.length = 0 := by rw [List.isEmpty_iff.mp hempty, List.length_nil]
      rw [List.filter_cons_of_neg (by simp [hempty])]
      simp only [SweepStats.count, hempty, if_true] at hmetrics hfamilies ⊢
      omega
    | false =>
      rw [List.filter_cons_of_pos (by simp [hempty])]
      simp only [SweepStats.count, hempty, Bool.false_eq_true, if_false, List.flatMap_cons, List.length_append,
        List.length_cons] at hmetrics hfamilies ⊢
      omega

theorem isLoss_staleStats (s : Store) (cutoff : Instant) : (s.staleStats cutoff).IsLoss s (s.dropStale cutoff) := by
  obtain ⟨hmetrics, hfamilies⟩ :=
    foldl_count (w := s.withoutStale cutoff) (fun _ => List.length_filter_le _ _) s.families.entries {}
  refine ⟨hmetrics.trans (Nat.zero_add _), hfamilies.trans (Nat.zero_add _), ?_⟩
  exact Nat.sub_add_cancel (List.length_filter_le _ _)

/-! ## Sweeps -/

/-- With a time-to-live, the cutoff of a sweep at the given time is a time. -/
def HasCutoff (s : Store) (now : Instant) : Prop := ∀ ttl, s.options.ttl = some ttl → calendarStart ≤ now - ttl

theorem sweep_of_ttl_eq_none {s : Store} (h : s.options.ttl = none) (now : Instant) : s.sweep now = some (s, {}) := by
  rw [sweep, h]

theorem sweep_of_ttl {s : Store} {ttl : Span} (h : s.options.ttl = some ttl) {now : Instant}
    (hnow : calendarStart ≤ now - ttl) : s.sweep now = some (s.evict (now - ttl)) := by
  rw [sweep, h]
  exact if_neg (Int.not_lt.mpr hnow)

/-- A sweep is possible exactly if it has a cutoff. -/
theorem isSome_sweep_iff (s : Store) (now : Instant) : (s.sweep now).isSome ↔ s.HasCutoff now := by
  rw [sweep, HasCutoff]
  cases s.options.ttl with
  | none => simp
  | some ttl =>
    dsimp only
    split
    next hbefore => simpa using hbefore
    next hnow => simpa using Int.not_lt.mp hnow

/-- Evicting takes the stale jobs and what belongs to them, and counts what it takes. -/
theorem evict_spec (s : Store) (cutoff : Instant) :
    Evicted (s.staleJobs cutoff) s (s.evict cutoff).1 ∧ (s.evict cutoff).2.IsLoss s (s.evict cutoff).1 := by
  unfold evict
  split
  next hany =>
    exact ⟨.inr ⟨(any_isStale_iff s cutoff).mp hany, leftWithout_dropStale s cutoff⟩, isLoss_staleStats s cutoff⟩
  next hany => exact ⟨.inl ⟨not_not.mp fun hne => hany ((any_isStale_iff s cutoff).mpr hne), rfl⟩, isLoss_self s⟩

/-- **A sweep evicts exactly the stale jobs.** Without a time-to-live it changes nothing. With one, let the cutoff, the
time-to-live before now, be a time. If no job pushed last strictly before the cutoff, nothing changes and all statistics
are zero. Otherwise these jobs leave the job table, each family keeps its metrics without the job label or with a job
that is not one of these, unchanged and in their order, and exactly the families without metrics after that are gone.
The statistics are the numbers of metrics, families and jobs that the store has lost. -/
theorem sweep_evicts_stale (s : Store) (now : Instant) :
    (s.options.ttl = none → s.sweep now = some (s, {})) ∧
      ∀ ttl : Span, s.options.ttl = some ttl → calendarStart ≤ now - ttl →
        let stale := s.staleJobs (now - ttl)
        ∃ t stats, s.sweep now = some (t, stats) ∧ (stale = [] → t = s ∧ stats = {}) ∧
          (stale ≠ [] → LeftWithout stale s t) ∧ stats.IsLoss s t := by
  refine ⟨fun hnone => sweep_of_ttl_eq_none hnone now, fun ttl httl hnow => ?_⟩
  obtain ⟨hevicted, hloss⟩ := s.evict_spec (now - ttl)
  refine ⟨_, _, sweep_of_ttl httl hnow, fun hnil => ?_, fun hne => ?_, hloss⟩
  · have heq : (s.evict (now - ttl)).1 = s := hevicted.unique (.inl ⟨hnil, rfl⟩)
    rw [heq] at hloss
    exact ⟨heq, hloss.unique (isLoss_self s)⟩
  · exact (hevicted.resolve_left fun h => hne h.1).2

/-- A push of a text with the given labels. -/
def textPush (now : Instant) (injected : List Label) (text : String) : Operation :=
  .push now injected .text (Utf8.bytesOf text)

/-- The characters of a literal are at hand, those of a string have to be decoded. -/
theorem textPush_ofList (now : Instant) (injected : List Label) (cs : List Char) :
    textPush now injected (String.ofList cs) = .push now injected .text (Utf8.encode cs) := by
  rw [textPush, Utf8.bytesOf_ofList]

/-- The job `old` pushes three families, of which the second push empties the summary, and the job `edge` one of them
later. The counter is also pushed without a job and with a job that is not tracked. -/
def agingStore : Store :=
  (new { ttl := some 5 }).run [
    textPush 0 [⟨"job", "old"⟩] "# TYPE c counter\nc 1\ng 1\n# TYPE s summary\ns_sum 1\n",
    textPush 1 [⟨"job", "old"⟩] "# TYPE s summary\ns_sum 1\n",
    textPush 2 [⟨"job", "edge"⟩] "# TYPE c counter\nc 1\n",
    textPush 2 [] "# TYPE c counter\nc 1\n",
    textPush 2 [] "# TYPE c counter\nc\x7bjob=\"untracked\"\x7d 1\n"]

theorem ttl_agingStore : agingStore.options.ttl = some 5 := by
  rw [agingStore, run_options]
  rfl

/-- A sweep at time 7 takes the job `old` and all that belongs to it, and one at time 9 the job `edge`. -/
theorem sweeps_agingStore :
    agingStore.familySizes = [("c", 4), ("g", 1), ("s", 0)] ∧ agingStore.staleJobs (7 - (5 : Span)) = ["old"] ∧
      (agingStore.sweep 7).map Prod.snd = some ⟨2, 2, 1⟩ ∧
      ((agingStore.sweep 7).bind fun t => (t.1.sweep 9).map Prod.snd) = some ⟨1, 0, 1⟩ := by
  rw [agingStore, textPush_ofList, textPush_ofList, textPush_ofList, textPush_ofList, textPush_ofList]
  decide +kernel

/-- At time 7 the last push of `edge` lies exactly on the cutoff, so that only the job `old` goes, and with it the
family that had no metrics before. -/
theorem sweep_evicts_stale_agingStore :
    agingStore.options.ttl = some 5 ∧ calendarStart ≤ (7 : Instant) - (5 : Span) ∧
      agingStore.familySizes = [("c", 4), ("g", 1), ("s", 0)] ∧
      ∃ t stats, agingStore.sweep 7 = some (t, stats) ∧ LeftWithout ["old"] agingStore t ∧ stats.IsLoss agingStore t ∧
        stats = ⟨2, 2, 1⟩ := by
  obtain ⟨hsizes, hstale, hstats, -⟩ := sweeps_agingStore
  obtain ⟨-, hsweep⟩ := sweep_evicts_stale agingStore 7
  obtain ⟨t, stats, hsome, -, hleft, hloss⟩ := hsweep 5 ttl_agingStore (by decide)
  rw [hsome] at hstats
  exact ⟨ttl_agingStore, by decide, hsizes, t, stats, hsome, hstale ▸ hleft (by rw [hstale]; decide), hloss,
    Option.some.inj hstats⟩

end Store
end MetricGateway
