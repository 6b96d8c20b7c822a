import Mathlib.Logic.Basic
import MetricGateway.Proofs.Store.Invariant
import MetricGateway.Proofs.Store.Ledger

/-!
# The store refines the ledger

A store agrees with a ledger if it holds for every series what is in its place, for every family what its heading says,
and for every job its last push (`Store.Agrees`). A sound store and a ledger that agree refuse the same families
(`Agrees.verdict`), and they agree after every accepted family, every sweep and so every run (`Agrees.run`): sorting and
merging never lose a push, apply it twice or apply it to another series.
-/

namespace MetricGateway.Store

/-! ## Views of a store -/

/-- The metrics that are stored under a name. -/
def metricsOf (s : Store) (name : String) : List (Metric Binary64) := ((s.family? name).map Family.metrics).getD []

/-- The metric that is stored for a series. -/
def series? (s : Store) (name : String) (labels : LabelSet) : Option (Metric Binary64) :=
  Sorted.lookup? Metric.labels labels (s.metricsOf name)

/-- The heading of a stored family. -/
def heading? (s : Store) (name : String) : Option Heading :=
  (s.families.get? name).map fun stored => ⟨stored.family.help, stored.family.type, stored.policy⟩

theorem metricsOf_eq {s : Store} {name : String} {stored : StoredFamily} (h : s.families.get? name = some stored) :
    s.metricsOf name = stored.family.metrics := by
  simp [metricsOf, family?, h]

theorem metricsOf_eq_nil {s : Store} {name : String} (h : s.families.get? name = none) : s.metricsOf name = [] := by
  simp [metricsOf, family?, h]

theorem metricsOf_put (s : Store) (name name' : String) (stored : StoredFamily) :
    (s.put name stored).metricsOf name' = if name = name' then stored.family.metrics else s.metricsOf name' := by
  simp only [metricsOf, family?, get?_put]
  split <;> rfl

theorem heading?_put (s : Store) (name name' : String) (stored : StoredFamily) :
    (s.put name stored).heading? name' =
      if name = name' then some ⟨stored.family.help, stored.family.type, stored.policy⟩ else s.heading? name' := by
  simp only [heading?, get?_put]
  split <;> rfl

theorem Sound.ascending {s : Store} (hs : s.Sound) (name : String) :
    Sorted.Ascending Metric.labels (s.metricsOf name) := by
  cases h : s.families.get? name with
  | none =>
    rw [metricsOf_eq_nil h]
    exact .nil
  | some stored =>
    rw [metricsOf_eq h]
    exact (hs name stored h).2.ascending

/-- In a sound store a metric is stored exactly if it is found under its labels. -/
theorem Sound.mem_metricsOf_iff {s : Store} (hs : s.Sound) (name : String) (m : Metric Binary64) :
    m ∈ s.metricsOf name ↔ s.series? name m.labels = some m := by
  rw [series?, Sorted.lookup?_eq_some_iff (hs.ascending name).ne]
  exact ⟨fun h => ⟨h, rfl⟩, fun h => h.1⟩

theorem metricsOf_eq_nil_iff (s : Store) (name : String) :
    s.metricsOf name = [] ↔ ∀ labels, s.series? name labels = none := by
  constructor
  · intro h labels
    rw [series?, h]
    rfl
  · intro h
    refine List.eq_nil_iff_forall_not_mem.mpr fun m hm => ?_
    exact Sorted.lookup?_eq_none_iff.mp (h m.labels) m hm rfl

/-! ## Agreement -/

/-- The store holds what is in the ledger. -/
structure Agrees (s : Store) (l : Ledger) : Prop where
  series : ∀ name labels, s.series? name labels = l.series name labels
  heading : ∀ name, s.heading? name = l.heading name
  lastPush : ∀ job, s.pushJobs.get? job = l.lastPush job

theorem agrees_new (o : StoreOptions) : (new o).Agrees .empty := ⟨fun _ _ => rfl, fun _ => rfl, fun _ => rfl⟩

section Pushing

variable {s t : Store} {l : Ledger} {injected : List Label} {f : Family}

theorem isEmpty_sortMetrics (g : Family) : g.sortMetrics.metrics.isEmpty = true ↔ g.metrics = [] := by
  rw [List.isEmpty_iff, Family.sortMetrics, ← List.length_eq_zero_iff, (Sorted.perm_sortBy _).length_eq,
    List.length_eq_zero_iff]

/-- A sound store commits a family unless the heading has another type. -/
theorem Agrees.verdict_commit (h : s.Agrees l) (hs : s.Sound) (g : Family) :
    (fun _ => ()) <$> s.commit g.sortMetrics =
      match l.heading g.name with
      | none => pure ()
      | some head =>
        if g.metrics ≠ [] ∧ head.type ≠ g.type then throw (.typeMismatch g.name head.type g.type) else pure () := by
  have hhead := h.heading g.name
  unfold commit
  by_cases hm : g.metrics = []
  · rw [if_pos ((isEmpty_sortMetrics g).mpr hm)]
    cases l.heading g.name <;> simp [hm, pure, Except.pure, Functor.map, Except.map]
  · rw [if_neg fun he => hm ((isEmpty_sortMetrics g).mp he)]
    have hkey : g.sortMetrics.name = g.name := rfl
    rw [hkey]
    cases hst : s.families.get? g.name with
    | none =>
      rw [heading?, hst] at hhead
      rw [← hhead]
      rfl
    | some stored =>
      rw [heading?, hst] at hhead
      rw [← hhead]
      have hname := (hs g.name stored hst).1
      by_cases ht : stored.family.type = g.type
      · simp [Family.merge, Family.sortMetrics, ht, bind, Except.bind, pure, Except.pure, Functor.map, Except.map]
      · simp [Family.merge, Family.sortMetrics, hm, ht, hname, bind, Except.bind, Functor.map, Except.map, throw,
          throwThe, MonadExceptOf.throw]

/-- A sound store gives a family the verdict of the ledger. -/
theorem Agrees.verdict (h : s.Agrees l) (hs : s.Sound) (injected : List Label) (f : Family) :
    (fun _ => ()) <$> s.ingestFamily injected f = l.verdict s.options injected f := by
  unfold ingestFamily prepare Ledger.verdict
  dsimp only
  generalize f.canonical injected s.options.ignored = g
  cases g.checkReserved with
  | error e => rfl
  | ok _ =>
    cases g.checkSeries with
    | error e => rfl
    | ok _ =>
      show (fun _ => ()) <$> s.commit g.sortMetrics = _
      exact h.verdict_commit hs g

/-- What the ledger does with a family that a sound store has prepared. -/
theorem Agrees.pushFamily_eq (h : s.Agrees l) (hs : s.Sound) (ht : s.ingestFamily injected f = .ok t) :
    l.pushFamily s.options injected f = l.addFamily s.options (f.canonical injected s.options.ignored) := by
  have hv := h.verdict hs injected f
  rw [ht] at hv
  unfold Ledger.pushFamily
  rw [← hv]
  rfl

/-- A store and a ledger agree after both have taken the metrics of a family, if the store holds for each series what
becomes of its two metrics. -/
theorem Agrees.put (h : s.Agrees l) {g : Family} {stored : StoredFamily}
    (hg : g.metrics.Pairwise fun a b => a.labels ≠ b.labels) (hne : g.metrics ≠ [])
    (hfor : l.headingFor s.options g = ⟨stored.family.help, stored.family.type, stored.policy⟩)
    (hseries : ∀ labels, Sorted.lookup? Metric.labels labels stored.family.metrics =
      Sorted.unite (Metric.combine stored.policy) (s.series? g.name labels)
        (Sorted.lookup? Metric.labels labels g.metrics)) :
    (s.put g.name stored).Agrees (l.addFamily s.options g) := by
  rw [Ledger.addFamily, if_neg hne, hfor]
  refine ⟨?_, ?_, ?_⟩
  · intro name labels
    rw [series?, metricsOf_put]
    split
    next hn =>
      subst hn
      rw [Ledger.series_foldl_add _ _ hg, hseries, h.series]
    next hn =>
      rw [Ledger.series_foldl_add_of_ne _ _ (Ne.symm hn)]
      exact h.series name labels
  · intro name
    rw [heading?_put, Ledger.heading_foldl_add, h.heading]
    exact if_congr eq_comm rfl rfl
  · intro job
    rw [Ledger.lastPush_foldl_add]
    exact h.lastPush job

/-- A family that is not stored yet fills empty places and writes its own heading. -/
theorem Agrees.install (h : s.Agrees l) {g : Family} (hg : g.metrics.Pairwise fun a b => a.labels ≠ b.labels)
    (hne : g.metrics ≠ []) (hst : s.families.get? g.name = none) :
    (s.put g.name ⟨g.sortMetrics, s.policyFor g⟩).Agrees (l.addFamily s.options g) := by
  refine h.put hg hne ?_ ?_
  · have hhead : l.heading g.name = none := by
      rw [← h.heading, heading?, hst]
      rfl
    rw [Ledger.headingFor, hhead]
    rfl
  · intro labels
    rw [series?, metricsOf_eq_nil hst]
    exact Sorted.lookup?_sortBy hg

/-- A family that is stored already is merged under the heading that is there. -/
theorem Agrees.merge (h : s.Agrees l) (hs : s.Sound) {g k : Family} {stored : StoredFamily}
    (hg : g.metrics.Pairwise fun a b => a.labels ≠ b.labels) (hne : g.metrics ≠ [])
    (hst : s.families.get? g.name = some stored) (hk : stored.family.merge stored.policy g.sortMetrics = .ok k) :
    (s.put g.name { stored with family := k }).Agrees (l.addFamily s.options g) := by
  obtain ⟨-, rfl⟩ := (Family.merge_eq_ok_iff _ _ _ _).mp hk
  refine h.put hg hne ?_ ?_
  · have hhead : l.heading g.name = some ⟨stored.family.help, stored.family.type, stored.policy⟩ := by
      rw [← h.heading, heading?, hst]
      rfl
    rw [Ledger.headingFor, hhead]
    rfl
  · intro labels
    have hsort : Sorted.lookup? Metric.labels labels g.sortMetrics.metrics =
        Sorted.lookup? Metric.labels labels g.metrics := Sorted.lookup?_sortBy hg
    rw [series?, metricsOf_eq hst, ← hsort]
    exact Sorted.lookup?_unionBy (fun _ _ _ => Metric.labels_of_combine) (hs g.name stored hst).2.ascending
      (Sorted.ascending_sortBy hg)

/-- A sound store and a ledger that agree do so after an accepted family. -/
theorem Agrees.ingestFamily (h : s.Agrees l) (hs : s.Sound) (ht : s.ingestFamily injected f = .ok t) :
    t.Agrees (l.pushFamily s.options injected f) := by
  rw [h.pushFamily_eq hs ht]
  obtain ⟨g, hg, hcases⟩ := ingestFamily_eq_ok ht
  obtain ⟨-, hseries, rfl⟩ := (s.prepare_eq_ok_iff injected f g).mp hg
  have hne := Family.labels_ne_of_checkSeries hseries
  generalize f.canonical injected s.options.ignored = c at hne hcases
  have hsorted : c.sortMetrics.metrics = [] ↔ c.metrics = [] := by
    rw [← List.isEmpty_iff, isEmpty_sortMetrics]
  rcases hcases with ⟨hm, rfl⟩ | ⟨hm, hst, rfl⟩ | ⟨hm, stored, k, hst, hk, rfl⟩
  · rw [Ledger.addFamily, if_pos (hsorted.mp hm)]
    exact h
  · exact h.install hne (fun he => hm (hsorted.mpr he)) hst
  · exact h.merge hs hne (fun he => hm (hsorted.mpr he)) hst hk

/-- A family that a sound store refuses changes nothing in the ledger. -/
theorem Agrees.pushFamily_of_error (h : s.Agrees l) (hs : s.Sound) {e : FamilyError}
    (he : s.ingestFamily injected f = .error e) : l.pushFamily s.options injected f = l := by
  have hv := h.verdict hs injected f
  rw [he] at hv
  unfold Ledger.pushFamily
  rw [← hv]
  rfl

end Pushing

/-! ## Runs -/

section Running

variable {s : Store} {l : Ledger}

theorem Agrees.ingestEach (h : s.Agrees l) (hs : s.Sound) (injected : List Label) (fs : List Family) :
    (s.ingestEach injected fs).1.Agrees (fs.foldl (Ledger.pushFamily s.options injected) l) := by
  induction fs generalizing s l with
  | nil => exact h
  | cons f fs ih =>
    rw [List.foldl_cons]
    unfold Store.ingestEach
    split
    next t ht =>
      have hc := changes_ingestFamily (P := fun _ => True) trivial ht
      rw [← options_of_changes hc]
      exact ih (options_of_changes hc ▸ h.ingestFamily hs ht) (sound_of_changes hc hs)
    next e he =>
      rw [h.pushFamily_of_error hs he]
      exact ih h hs

theorem Agrees.recordPush (h : s.Agrees l) (now : Instant) (injected : List Label) :
    (s.recordPush now injected).Agrees (l.note s.options now injected) := by
  unfold Store.recordPush Ledger.note
  cases lastValue? s.options.jobLabel injected with
  | none => exact h
  | some job =>
    refine ⟨h.series, h.heading, fun j => ?_⟩
    rw [Table.get?_insert, h.lastPush]
    exact if_congr eq_comm rfl rfl

theorem Agrees.ingestFamilies (h : s.Agrees l) (hs : s.Sound) (now : Instant) (injected : List Label)
    (fs : List Family) : (s.ingestFamilies now injected fs).1.Agrees (l.pushFamilies s.options now injected fs) := by
  have hc := changes_recordPush (P := fun _ => True) s now injected
  have hpush := (h.recordPush now injected).ingestEach (sound_of_changes hc hs) injected fs
  rw [options_of_changes hc] at hpush
  exact hpush

end Running

theorem metricsOf_dropStale (s : Store) (cutoff : Instant) (name : String) :
    (s.dropStale cutoff).metricsOf name = (s.metricsOf name).filter fun m => !s.belongsToStale cutoff m := by
  rw [metricsOf, family?, get?_dropStale]
  cases h : s.families.get? name with
  | none =>
    rw [metricsOf_eq_nil h]
    rfl
  | some stored =>
    rw [metricsOf_eq h, Option.map_some]
    by_cases he : (s.withoutStale cutoff stored).family.metrics = []
    · rw [Option.filter_some_neg (by simp [he])]
      exact he.symm
    · rw [Option.filter_some_pos (by simp [he])]
      rfl

/-- A family whose metrics are all gone loses its heading, and the others keep theirs. -/
theorem heading?_dropStale (s : Store) (cutoff : Instant) (name : String) :
    (s.dropStale cutoff).heading? name =
      if (s.dropStale cutoff).metricsOf name = [] then none else s.heading? name := by
  rw [heading?, heading?, metricsOf_dropStale, get?_dropStale]
  cases h : s.families.get? name with
  | none => simp
  | some stored =>
    rw [metricsOf_eq h, Option.map_some]
    by_cases he : (stored.family.metrics.filter fun m => !s.belongsToStale cutoff m) = []
    · rw [Option.filter_some_neg (by simp [withoutStale, he]), if_pos he]
      rfl
    · rw [Option.filter_some_pos (by simpa [withoutStale] using he), if_neg he]
      rfl

section Sweeping

variable {s : Store} {l : Ledger}

theorem Agrees.isStale_iff (h : s.Agrees l) (cutoff : Instant) (job : String) :
    s.isStale cutoff job = true ↔ l.Stale cutoff job := by
  rw [isStale, Option.any_eq_true, Ledger.Stale, h.lastPush]
  simp

theorem Agrees.freshSeries (h : s.Agrees l) (hs : s.Sound) (cutoff : Instant) (name : String) (labels : LabelSet) :
    (s.dropStale cutoff).series? name labels = l.freshSeries s.options cutoff name labels := by
  rw [series?, metricsOf_dropStale, Sorted.lookup?_filter (hs.ascending name).ne, Ledger.freshSeries, ← h.series,
    series?]
  cases hm : Sorted.lookup? Metric.labels labels (s.metricsOf name) with
  | none => simp
  | some m =>
    obtain ⟨-, rfl⟩ := Sorted.mem_of_lookup? hm
    have hb : s.belongsToStale cutoff m = true ↔
        ∃ job, m.labels.get? s.options.jobLabel = some job ∧ l.Stale cutoff job := by
      simp only [belongsToStale, Option.any_eq_true, h.isStale_iff]
    by_cases hstale : s.belongsToStale cutoff m = true
    · rw [if_pos (hb.mp hstale)]
      exact Option.filter_some_neg (by simp [hstale])
    · rw [if_neg fun hj => hstale (hb.mpr hj)]
      exact Option.filter_some_pos (by simp [hstale])

theorem Agrees.dropStale (h : s.Agrees l) (hs : s.Sound) (cutoff : Instant) :
    (s.dropStale cutoff).Agrees (l.dropStale s.options cutoff) := by
  refine ⟨h.freshSeries hs cutoff, ?_, ?_⟩
  · intro name
    have hnil : (s.dropStale cutoff).metricsOf name = [] ↔
        ∀ labels, l.freshSeries s.options cutoff name labels = none := by
      rw [metricsOf_eq_nil_iff]
      simp only [h.freshSeries hs]
    rw [heading?_dropStale, h.heading]
    by_cases he : (s.dropStale cutoff).metricsOf name = []
    · rw [if_pos he]
      exact (if_neg fun ⟨labels, hl⟩ => hl (hnil.mp he labels)).symm
    · rw [if_neg he]
      exact (if_pos (Classical.not_forall.mp fun hn => he (hnil.mpr hn))).symm
  · intro job
    rw [get?_pushJobs_dropStale, Ledger.dropStale]
    dsimp only
    rw [← h.lastPush]
    by_cases hj : s.isStale cutoff job = true
    · rw [if_pos ((h.isStale_iff cutoff job).mp hj)]
      simp [hj]
    · rw [if_neg fun hl => hj ((h.isStale_iff cutoff job).mpr hl)]
      cases s.pushJobs.get? job <;> simp [Option.filter, hj]

theorem Agrees.sweep (h : s.Agrees l) (hs : s.Sound) (now : Instant) :
    (((s.sweep now).map Prod.fst).getD s).Agrees (l.sweep s.options now) := by
  unfold Store.sweep Ledger.sweep
  cases s.options.ttl with
  | none => exact h
  | some ttl =>
    dsimp only
    by_cases hc : now - ttl < calendarStart
    · rw [if_pos hc, if_neg fun hl => absurd hl.1 (Int.not_le.mpr hc)]
      exact h
    · rw [if_neg hc, Option.map_some, Option.getD_some, evict]
      have hjobs : s.pushJobs.keys.any (s.isStale (now - ttl)) = true ↔ ∃ job, l.Stale (now - ttl) job := by
        simp only [Table.any_keys_iff, h.isStale_iff, Ledger.Stale, h.lastPush]
        constructor
        · rintro ⟨job, _, -, hj⟩
          exact ⟨job, hj⟩
        · rintro ⟨job, t, ht, hlt⟩
          exact ⟨job, t, ht, t, ht, hlt⟩
      by_cases hj : s.pushJobs.keys.any (s.isStale (now - ttl)) = true
      · rw [if_pos hj, if_pos ⟨Int.not_lt.mp hc, hjobs.mp hj⟩]
        exact h.dropStale hs _
      · rw [if_neg hj, if_neg fun hl => hj (hjobs.mpr hl.2)]
        exact h

/-- A sound store and a ledger that agree do so after every operation. -/
theorem Agrees.perform (h : s.Agrees l) (hs : s.Sound) (op : Operation) :
    (s.perform op).Agrees (l.perform s.options op) := by
  cases op with
  | push now injected format payload =>
    show (s.ingest now injected format payload).1.Agrees _
    rw [ingest, Ledger.perform]
    cases format.read payload with
    | error fault => exact h
    | ok fs => exact h.ingestFamilies hs now injected fs
  | pushFamilies now injected fs => exact h.ingestFamilies hs now injected fs
  | sweep now => exact h.sweep hs now

theorem Agrees.run (h : s.Agrees l) (hs : s.Sound) (ops : List Operation) :
    (s.run ops).Agrees (l.run s.options ops) := by
  induction ops generalizing s l with
  | nil => exact h
  | cons op ops ih =>
    have hc := changes_perform (P := fun _ => True) s op fun _ _ => trivial
    have hrest := ih (h.perform hs op) (sound_of_changes hc hs)
    rw [options_of_changes hc] at hrest
    exact hrest

end Sweeping

/-- What a sound store holds, as a ledger. -/
def ledger (s : Store) : Ledger := ⟨s.series?, s.heading?, s.pushJobs.get?⟩

theorem agrees_ledger (s : Store) : s.Agrees s.ledger := ⟨fun _ _ => rfl, fun _ => rfl, fun _ => rfl⟩

/-- A push of families changes only series that it pushes. -/
theorem pushes_of_series?_ne {s : Store} (hs : s.Sound) (now : Instant) (injected : List Label) (fs : List Family)
    {name : String} {labels : LabelSet}
    (h : (s.ingestFamilies now injected fs).1.series? name labels ≠ s.series? name labels) :
    Ledger.Pushes s.options injected fs name labels := by
  refine Classical.byContradiction fun hno => ?_
  have hseries := ((agrees_ledger s).ingestFamilies hs now injected fs).series name labels
  rw [Ledger.series_pushFamilies_of_ne _ _ hno] at hseries
  exact h hseries

/-- **The store refines the ledger.** After any operations on an empty store and an empty ledger, the store holds for
every series the metric in its place and no other metrics, for every family what its heading says, for every job its
last push, and it gives every further family the verdict of the ledger. -/
theorem run_refines_ledger (o : StoreOptions) (ops : List Operation) :
    let s := (new o).run ops
    let l := Ledger.empty.run o ops
    s.Agrees l ∧ (∀ name m, m ∈ s.metricsOf name ↔ l.series name m.labels = some m) ∧
      ∀ injected f, (fun _ => ()) <$> s.ingestFamily injected f = l.verdict o injected f := by
  have hs := sound_run o ops
  have h := (agrees_new o).run (sound_new o) ops
  refine ⟨h, fun name m => ?_, fun injected f => ?_⟩
  · rw [hs.mem_metricsOf_iff, h.series]
    rfl
  · have hv := h.verdict hs injected f
    rw [run_options] at hv
    exact hv

end MetricGateway.Store
