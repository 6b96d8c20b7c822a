import MetricGateway.Proofs.Exposition.Samples
import MetricGateway.Proofs.Store.Run
import MetricGateway.Proofs.Table

/-!
# What holds of every stored family

A stored family after a change is one from before, a prepared one, a merged one, or one without its stale metrics
(`Change.stored_cases`), so a property of stored families is kept by every change if it is kept in these cases.

- `wellFormed_of_stored`: the invariant of a run, for each stored family.
- `sound_run`: every family stands under its own name and is well-formed (`Store.Sound`).
- `metrics_run`: what every pushed metric has, and new labels and combining keep, every stored metric has.
- `sampled_run`: every stored metric has samples, provided that every pushed one has (`Store.Sampled`).
-/

namespace MetricGateway

theorem Count.one_le_add {m n : Count} (h : 1 ≤ m) : 1 ≤ Count.add m n := by
  rw [UInt64.le_iff_toNat_le] at h ⊢
  have hone : (1 : UInt64).toNat = 1 := rfl
  have hlargest : 1 ≤ Count.largest := by decide
  rw [Count.toNat_add]
  omega

namespace Store

/-! ## Stored families after a change -/

/-- What is left of a family when the stale jobs are dropped; nothing if all its metrics were theirs. -/
theorem get?_dropStale (s : Store) (cutoff : Instant) (name : String) :
    (s.dropStale cutoff).families.get? name =
      ((s.families.get? name).map (s.withoutStale cutoff)).filter fun stored => !stored.family.metrics.isEmpty := by
  simp only [dropStale, Table.get?_filter, Table.get?_map]

theorem get?_pushJobs_dropStale (s : Store) (cutoff : Instant) (job : String) :
    (s.dropStale cutoff).pushJobs.get? job = (s.pushJobs.get? job).filter fun _ => !s.isStale cutoff job := by
  simp only [dropStale, Table.get?_filter]

/-- Where a stored family comes from. -/
theorem Change.stored_cases {P : Family → Prop} {s t : Store} (h : Change P s t) {name : String} {stored : StoredFamily}
    (ht : t.families.get? name = some stored) :
    s.families.get? name = some stored ∨
      (∃ injected f, P f ∧ s.prepare injected f = .ok stored.family ∧ stored.family.metrics ≠ [] ∧
        stored.family.name = name ∧ stored.policy = s.policyFor stored.family) ∨
      (∃ injected f g old, P f ∧ s.prepare injected f = .ok g ∧ g.metrics ≠ [] ∧ g.name = name ∧
        s.families.get? name = some old ∧ old.family.merge old.policy g = .ok stored.family ∧
        stored.policy = old.policy) ∨
      ∃ cutoff old, s.families.get? name = some old ∧ stored = s.withoutStale cutoff old := by
  cases h with
  | note now job => exact .inl ht
  | @install injected f g hf hg hne hs =>
    rw [get?_put] at ht
    split at ht
    next hn =>
      cases ht
      exact .inr (.inl ⟨injected, f, hf, hg, hne, hn, rfl⟩)
    next => exact .inl ht
  | @merge injected f g k old hf hg hne hs hk =>
    rw [get?_put] at ht
    split at ht
    next hn =>
      cases ht
      exact .inr (.inr (.inl ⟨injected, f, g, old, hf, hg, hne, hn, hn ▸ hs, hk, rfl⟩))
    next => exact .inl ht
  | drop cutoff =>
    rw [get?_dropStale, Option.filter_eq_some_iff, Option.map_eq_some_iff] at ht
    obtain ⟨⟨old, hold, rfl⟩, -⟩ := ht
    exact .inr (.inr (.inr ⟨cutoff, old, hold, rfl⟩))

/-! ## Soundness -/

/-- Every family stands under its own name and is well-formed. -/
def Sound (s : Store) : Prop :=
  ∀ name stored, s.families.get? name = some stored →
    stored.family.name = name ∧ stored.family.WellFormed s.options.ignored

theorem sound_new (o : StoreOptions) : (new o).Sound := by
  intro name stored h
  cases h

theorem Change.sound {P : Family → Prop} {s t : Store} (h : Change P s t) (hs : s.Sound) : t.Sound := by
  intro name stored ht
  rw [h.options_eq]
  rcases h.stored_cases ht with hold | ⟨injected, f, -, hg, hne, hn, -⟩ |
    ⟨injected, f, g, old, -, hg, hne, hn, hold, hk, -⟩ | ⟨cutoff, old, hold, rfl⟩
  · exact hs name stored hold
  · exact ⟨hn, wellFormed_of_prepare hg hne⟩
  · obtain ⟨hname, hwf⟩ := hs name old hold
    obtain ⟨-, hk'⟩ := (Family.merge_eq_ok_iff _ _ _ _).mp hk
    refine ⟨?_, hwf.merge (wellFormed_of_prepare hg hne) hk⟩
    rw [hk']
    exact hname
  · obtain ⟨hname, hwf⟩ := hs name old hold
    exact ⟨hname, hwf.filter _⟩

theorem sound_of_changes {P : Family → Prop} {s t : Store} (h : Relation.ReflTransGen (Change P) s t) (hs : s.Sound) :
    t.Sound :=
  changes_induction (fun _ _ hc => hc.sound) h hs

theorem Sound.ingestFamilies {s : Store} (hs : s.Sound) (now : Instant) (injected : List Label) (fs : List Family) :
    (s.ingestFamilies now injected fs).1.Sound :=
  sound_of_changes (changes_ingestFamilies (P := fun _ => True) s now injected fs fun _ _ => trivial) hs

theorem sound_run (o : StoreOptions) (ops : List Operation) : ((new o).run ops).Sound :=
  run_induction (P := fun _ => True) (fun _ _ h => h.sound) (sound_new o) ops fun _ _ _ _ => trivial

/-! ## Stored metrics -/

theorem mem_metrics_iff {s : Store} {m : Metric Binary64} :
    m ∈ s.metrics ↔ ∃ name stored, s.families.get? name = some stored ∧ m ∈ stored.family.metrics := by
  simp only [metrics, List.mem_flatMap, Prod.exists, Table.mem_entries_iff]

section Metrics

variable {p : Metric Binary64 → Prop} (hrelabel : ∀ m labels, p m → p { m with labels })
  (hcombine : ∀ policy a b c, Metric.combine policy a b = some c → p a → p b → p c)
include hrelabel hcombine

theorem Change.metrics {s t : Store} (h : Change (fun f => ∀ m ∈ f.metrics, p m) s t) (hs : ∀ m ∈ s.metrics, p m) :
    ∀ m ∈ t.metrics, p m := by
  have hold : ∀ {name : String} {stored : StoredFamily}, s.families.get? name = some stored →
      ∀ m ∈ stored.family.metrics, p m :=
    fun hget m hm => hs m (mem_metrics_iff.mpr ⟨_, _, hget, hm⟩)
  have hprep : ∀ {injected : List Label} {f g : Family}, (∀ m ∈ f.metrics, p m) →
      s.prepare injected f = .ok g → ∀ m ∈ g.metrics, p m := by
    intro injected f g hf hg m hm
    obtain ⟨m₀, hm₀, rfl⟩ := mem_metrics_of_prepare hg hm
    exact hrelabel m₀ _ (hf m₀ hm₀)
  intro m hmem
  obtain ⟨name, stored, ht, hm⟩ := mem_metrics_iff.mp hmem
  rcases h.stored_cases ht with hget | ⟨injected, f, hf, hg, -⟩ | ⟨injected, f, g, old, hf, hg, -, -, hget, hk, -⟩ |
    ⟨cutoff, old, hget, rfl⟩
  · exact hold hget m hm
  · exact hprep hf hg m hm
  · rcases Family.mem_merge hk hm with hm | hm | ⟨a, ha, b, hb, -, hc⟩
    · exact hold hget m hm
    · exact hprep hf hg m hm
    · exact hcombine _ a b m hc (hold hget a ha) (hprep hf hg b hb)
  · exact hold hget m (List.mem_filter.mp hm).1

/-- What every pushed metric has, and new labels and combining keep, every stored metric has. -/
theorem metrics_run (o : StoreOptions) (ops : List Operation)
    (hops : ∀ op ∈ ops, ∀ f ∈ op.families, ∀ m ∈ f.metrics, p m) : ∀ m ∈ ((new o).run ops).metrics, p m := by
  refine run_induction (fun _ _ h => h.metrics hrelabel hcombine) ?_ ops hops
  intro m hm
  cases hm

end Metrics

/-- Every stored metric has samples behind it. -/
def Sampled (s : Store) : Prop :=
  ∀ name stored, s.families.get? name = some stored → ∀ m ∈ stored.family.metrics, 1 ≤ m.observations

/-- Where every family that is pushed as such has metrics with samples, so has every stored one. -/
theorem sampled_run (o : StoreOptions) (ops : List Operation)
    (hops : ∀ op ∈ ops, ∀ f ∈ op.given, ∀ m ∈ f.metrics, 1 ≤ m.observations) : ((new o).run ops).Sampled := by
  have hmetrics : ∀ m ∈ ((new o).run ops).metrics, 1 ≤ m.observations := by
    refine metrics_run (p := fun m => 1 ≤ m.observations) (fun _ _ h => h) ?_ o ops ?_
    · intro policy a b c hc ha _
      obtain ⟨v, -, rfl⟩ := Option.map_eq_some_iff.mp hc
      exact Count.one_le_add ha
    · intro op hop f hf m hm
      cases op with
      | push now injected format payload =>
        obtain ⟨fs, hr, hf⟩ := (Operation.mem_families_push ..).mp hf
        rw [ExpositionFormat.observations_of_read hr hf hm]
        exact UInt64.le_refl 1
      | pushFamilies now injected fs => exact hops _ hop f hf m hm
      | sweep now => cases hf
  intro name stored h m hm
  exact hmetrics m (mem_metrics_iff.mpr ⟨name, stored, h, hm⟩)

/-! ## The invariant of a run -/

/-- **What holds of every stored family.** In every store that a run reaches, a family stands under its own name, which
can be written; its metrics stand in strictly ascending order of their label sets, so no series occurs twice; the labels
of each metric stand in order of their names, and no name is ignored, cannot be written or is reserved; and each metric
has a sample. The number of samples starts at one and only the store adds to it, so the families that are handed over
as such have samples as well. -/
theorem wellFormed_of_stored (o : StoreOptions) (ops : List Operation)
    (hops : ∀ op ∈ ops, ∀ f ∈ op.given, ∀ m ∈ f.metrics, 1 ≤ m.observations) (name : String) (stored : StoredFamily)
    (h : (name, stored) ∈ ((new o).run ops).families.entries) :
    stored.family.name = name ∧ stored.family.WellFormed o.ignored ∧ (stored.family.metrics.map Metric.labels).Nodup ∧
      ∀ m ∈ stored.family.metrics, 1 ≤ m.observations := by
  have hstored := (Table.mem_entries_iff _ name stored).mp h
  obtain ⟨hname, hwf⟩ := sound_run o ops name stored hstored
  rw [run_options] at hwf
  refine ⟨hname, hwf, ?_, sampled_run o ops hops name stored hstored⟩
  exact List.pairwise_map.mpr (Sorted.Ascending.ne hwf.ascending)

/-- A counter of one series. -/
def requestsOf (l : Label) : Family where
  name := "requests"
  type := .counter
  metrics := [{ labels := LabelSet.empty.insert l, value := .counter .zero }]

/-- A push of a job whose metric has an ignored label, and a sweep that finds no stale job. -/
def podPush : List Operation := [.pushFamilies 0 [⟨"job", "a"⟩] [requestsOf ⟨"Pod", "1"⟩], .sweep 4]

/-- After the push of `podPush` the job label stands in the place of the ignored one. -/
theorem wellFormed_of_stored_podPush :
    (∀ op ∈ podPush, ∀ f ∈ op.given, ∀ m ∈ f.metrics, 1 ≤ m.observations) ∧
      ("requests", StoredFamily.mk (requestsOf ⟨"job", "a"⟩) {}) ∈
        ((new { ignored := .ofList [" pod"], ttl := some 5 }).run podPush).families.entries ∧
      (requestsOf ⟨"job", "a"⟩).WellFormed (.ofList [" pod"]) ∧
      ∀ m ∈ (requestsOf ⟨"job", "a"⟩).metrics, 1 ≤ m.observations := by
  have hops : ∀ op ∈ podPush, ∀ f ∈ op.given, ∀ m ∈ f.metrics, 1 ≤ m.observations := by decide
  have hmem : ("requests", StoredFamily.mk (requestsOf ⟨"job", "a"⟩) {}) ∈
      ((new { ignored := .ofList [" pod"], ttl := some 5 }).run podPush).families.entries := List.mem_singleton.mpr rfl
  obtain ⟨-, hwf, -, hobs⟩ := wellFormed_of_stored _ _ hops _ _ hmem
  exact ⟨hops, hmem, hwf, hobs⟩

end Store
end MetricGateway
