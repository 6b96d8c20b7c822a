import MetricGateway.Proofs.Store.Eviction

/-!
# Sweeps without pushes in between

Evicting at two cutoffs, one after the other, is evicting at the later one (`evict_evict`): the first one takes the
jobs that are stale at its cutoff, the second one those that are stale at its own among the rest, and what is lost adds
up. So any number of sweeps without pushes in between is the sweep at the latest of their times (`sweepAll_eq`), and so
are the ticks of the periodic sweeper (`sweepEvery_spec`).
-/

namespace MetricGateway

namespace SweepStats

/-- What two sweeps removed. -/
def add (a b : SweepStats) : SweepStats := ⟨a.metrics + b.metrics, a.families + b.families, a.jobs + b.jobs⟩

/-- What several sweeps removed. -/
def total (stats : List SweepStats) : SweepStats := stats.foldr add {}

theorem eq_empty_of_add_eq_self {a b : SweepStats} (h : a.add b = a) : b = {} := by
  obtain ⟨m, f, j⟩ := a
  obtain ⟨m', f', j'⟩ := b
  simp only [add, SweepStats.mk.injEq] at h ⊢
  omega

theorem IsLoss.add {a b : SweepStats} {s t u : Store} (ha : a.IsLoss s t) (hb : b.IsLoss t u) :
    (a.add b).IsLoss s u where
  metrics := by rw [← ha.metrics, ← hb.metrics, ← Nat.add_assoc]; rfl
  families := by rw [← ha.families, ← hb.families, ← Nat.add_assoc]; rfl
  jobs := by rw [← ha.jobs, ← hb.jobs, ← Nat.add_assoc]; rfl

end SweepStats

namespace Store

/-! ## Two cutoffs -/

/-- The jobs that go at a cutoff and those that go at another one after that are the stale jobs of the later one. -/
theorem mem_staleJobs_append_iff {s t : Store} {c d : Instant} (h : Evicted (s.staleJobs c) s t) (job : String) :
    job ∈ s.staleJobs c ++ t.staleJobs d ↔ job ∈ s.staleJobs (max c d) := by
  simp only [List.mem_append, mem_staleJobs_iff, h.pushJobs, lt_max_iff]
  constructor
  · rintro (⟨last, hlast, hlt⟩ | ⟨last, ⟨hlast, -⟩, hlt⟩)
    · exact ⟨last, hlast, .inl hlt⟩
    · exact ⟨last, hlast, .inr hlt⟩
  · rintro ⟨last, hlast, hlt⟩
    by_cases hstale : ∃ last, s.pushJobs.get? job = some last ∧ last < c
    · exact .inl hstale
    · exact .inr ⟨last, ⟨hlast, hstale⟩, hlt.resolve_left fun hc => hstale ⟨last, hlast, hc⟩⟩

/-- Evicting at two cutoffs is evicting at the later one. -/
theorem evict_evict (s : Store) (c d : Instant) :
    s.evict (max c d) = (((s.evict c).1.evict d).1, (s.evict c).2.add ((s.evict c).1.evict d).2) := by
  obtain ⟨hfirst, hlost⟩ := s.evict_spec c
  obtain ⟨hsecond, hlost'⟩ := (s.evict c).1.evict_spec d
  obtain ⟨hboth, hlostBoth⟩ := s.evict_spec (max c d)
  have heq : (s.evict (max c d)).1 = ((s.evict c).1.evict d).1 :=
    hboth.unique ((hfirst.trans hsecond).congr (mem_staleJobs_append_iff hfirst))
  rw [heq] at hlostBoth
  exact Prod.ext heq (hlostBoth.unique (hlost.add hlost'))

/-! ## Several sweeps -/

theorem HasCutoff.of_le {s : Store} {now later : Instant} (h : s.HasCutoff now) (hle : now ≤ later) :
    s.HasCutoff later :=
  fun ttl httl => Int.le_trans (h ttl httl) (Int.sub_le_sub_right hle _)

theorem HasCutoff.congr {s t : Store} {now : Instant} (h : s.HasCutoff now) (ht : t.options = s.options) :
    t.HasCutoff now := by
  rwa [HasCutoff, ht]

/-- Two sweeps are the sweep at the later time. -/
theorem sweep_sweep {s : Store} {t₁ t₂ : Instant} (h₁ : s.HasCutoff t₁) (h₂ : s.HasCutoff t₂) :
    ∃ u v a b, s.sweep t₁ = some (u, a) ∧ u.sweep t₂ = some (v, b) ∧ s.sweep (max t₁ t₂) = some (v, a.add b) ∧
      u.options = s.options := by
  cases httl : s.options.ttl with
  | none =>
    have hsweep := sweep_of_ttl_eq_none httl
    exact ⟨s, s, {}, {}, hsweep t₁, hsweep t₂, hsweep (max t₁ t₂), rfl⟩
  | some ttl =>
    let u := s.evict (t₁ - ttl)
    let v := u.1.evict (t₂ - ttl)
    have hoptions : u.1.options = s.options := (s.evict_spec (t₁ - ttl)).1.options
    have hlater : s.HasCutoff (max t₁ t₂) := h₁.of_le (Int.le_max_left _ _)
    refine ⟨u.1, v.1, u.2, v.2, sweep_of_ttl httl (h₁ ttl httl), ?_, ?_, hoptions⟩
    · exact sweep_of_ttl (by rw [hoptions, httl]) (h₂ ttl httl)
    · rw [sweep_of_ttl httl (hlater ttl httl), ← Int.sub_max_sub_right, evict_evict]

/-- Sweeps at several times, one after the other: the store afterwards and what was removed. A sweep that is not
possible leaves no result. -/
def sweepAll (s : Store) : List Instant → Option (Store × SweepStats)
  | [] => some (s, {})
  | now :: times => (s.sweep now).bind fun (t, a) => (t.sweepAll times).map fun (u, b) => (u, a.add b)

/-- Several sweeps are the sweep at the latest of their times. -/
theorem sweepAll_eq {s : Store} {times : List Instant} (h : ∀ t ∈ times, s.HasCutoff t) {latest : Instant}
    (hlatest : times.max? = some latest) : s.sweepAll times = s.sweep latest := by
  induction times generalizing s latest with
  | nil => cases hlatest
  | cons now times ih =>
    obtain ⟨hnow, htimes⟩ := List.forall_mem_cons.mp h
    rw [List.max?_cons] at hlatest
    cases hmax : times.max? with
    | none =>
      obtain ⟨⟨u, a⟩, hu⟩ := Option.isSome_iff_exists.mp ((s.isSome_sweep_iff now).mpr hnow)
      rw [hmax, Option.elim_none, Option.some.injEq] at hlatest
      rw [List.max?_eq_none_iff.mp hmax, sweepAll.eq_2, ← hlatest, hu]
      rfl
    | some last =>
      rw [hmax] at hlatest
      cases hlatest
      obtain ⟨u, v, a, b, hu, hv, hboth, hoptions⟩ := sweep_sweep hnow (htimes last (List.max?_mem hmax))
      have hrest : u.sweepAll times = u.sweep last := ih (fun t ht => (htimes t ht).congr hoptions) hmax
      rw [sweepAll.eq_2, hu, Option.bind_some]
      dsimp only
      rw [hrest, hv]
      exact hboth.symm

/-- The ticks of the periodic sweeper are the last of them alone. -/
theorem sweepEvery_spec {s : Store} {period : Span} {now : Instant} (h : s.HasCutoff (now + period)) (ticks : Nat) :
    ∃ t stats, s.sweepEvery period now (ticks + 1) = (t, stats) ∧ stats.length = ticks + 1 ∧
      s.sweep (now + ((ticks + 1) * period : Span)) = some (t, .total stats) := by
  induction ticks generalizing s now with
  | zero =>
    obtain ⟨⟨u, a⟩, hu⟩ := Option.isSome_iff_exists.mp ((s.isSome_sweep_iff _).mpr h)
    refine ⟨u, [a], ?_, rfl, ?_⟩
    · rw [sweepEvery, hu]
      rfl
    · rw [Nat.zero_add, Nat.one_mul, hu]
      rfl
  | succ ticks ih =>
    have hlater : ∀ span : Span, now + period ≤ now + period + span :=
      fun span => Int.le_add_of_nonneg_right (Int.natCast_nonneg span)
    obtain ⟨u, v, a, b, hu, hv, hboth, hoptions⟩ := sweep_sweep h (h.of_le (hlater ((ticks + 1) * period)))
    obtain ⟨t, stats, hticks, hlength, hlast⟩ := ih ((h.of_le (hlater period)).congr hoptions)
    rw [hv] at hlast
    cases hlast
    refine ⟨v, a :: stats, ?_, congrArg (· + 1) hlength, ?_⟩
    · rw [sweepEvery, hu]
      dsimp only
      rw [hticks]
    · have htime : now + (((ticks + 1 + 1) * period : Span) : Int) = now + period + ((ticks + 1) * period : Span) := by
        rw [Nat.succ_mul, Nat.add_comm, Int.natCast_add, Int.add_assoc]
      rw [htime, ← Int.max_eq_right (hlater ((ticks + 1) * period))]
      exact hboth

/-- **Sweeps compose.** Let two times have cutoffs. Sweeping at the first one and then at the second one leaves the same
store as sweeping once at the later one, and what the two sweeps removed adds up to what the one removes. So a second
sweep at the same time changes nothing, any number of sweeps is the sweep at the latest of their times, and any number
of ticks of the periodic sweeper removes in total what its last tick alone does. -/
theorem sweeps_compose (s : Store) {t₁ t₂ : Instant} (h₁ : s.HasCutoff t₁) (h₂ : s.HasCutoff t₂) :
    (∃ u v a b, s.sweep t₁ = some (u, a) ∧ u.sweep t₂ = some (v, b) ∧ s.sweep (max t₁ t₂) = some (v, a.add b)) ∧
      (∃ u a, s.sweep t₁ = some (u, a) ∧ u.sweep t₁ = some (u, {})) ∧
      (∀ times latest, (∀ t ∈ times, s.HasCutoff t) → times.max? = some latest →
        s.sweepAll times = s.sweep latest) ∧
      ∀ (period : Span) (now : Instant) (ticks : Nat), s.HasCutoff (now + period) →
        ∃ t stats, s.sweepEvery period now (ticks + 1) = (t, stats) ∧ stats.length = ticks + 1 ∧
          s.sweep (now + ((ticks + 1) * period : Span)) = some (t, .total stats) := by
  refine ⟨?_, ?_, fun times latest h hlatest => sweepAll_eq h hlatest,
    fun period now ticks h => sweepEvery_spec h ticks⟩
  · obtain ⟨u, v, a, b, hu, hv, hboth, -⟩ := sweep_sweep h₁ h₂
    exact ⟨u, v, a, b, hu, hv, hboth⟩
  · obtain ⟨u, v, a, b, hu, hv, hboth, -⟩ := sweep_sweep h₁ h₁
    rw [Int.max_self, hu, Option.some_inj, Prod.mk.injEq] at hboth
    obtain ⟨rfl, ha⟩ := hboth
    rw [SweepStats.eq_empty_of_add_eq_self ha.symm] at hv
    exact ⟨u, a, hu, hv⟩

/-- The first sweep takes the job `old`, the second one the job `edge`, and the sweep at the later time takes both. -/
theorem sweeps_compose_agingStore :
    agingStore.HasCutoff 7 ∧ agingStore.HasCutoff 9 ∧
      ∃ u v a b, agingStore.sweep 7 = some (u, a) ∧ u.sweep 9 = some (v, b) ∧ a = ⟨2, 2, 1⟩ ∧ b = ⟨1, 0, 1⟩ ∧
        agingStore.sweep 9 = some (v, ⟨3, 2, 2⟩) := by
  have hcutoff : ∀ now : Instant, 0 ≤ now → agingStore.HasCutoff now := by
    intro now hnow ttl h
    rw [ttl_agingStore] at h
    cases h
    exact Int.le_trans (by decide) (Int.sub_le_sub_right hnow _)
  obtain ⟨⟨u, v, a, b, hu, hv, hboth⟩, -⟩ := sweeps_compose agingStore (hcutoff 7 (by decide)) (hcutoff 9 (by decide))
  obtain ⟨-, -, hfirst, hsecond⟩ := sweeps_agingStore
  rw [hu] at hfirst hsecond
  rw [Option.bind_some, hv] at hsecond
  cases hfirst
  cases hsecond
  exact ⟨hcutoff 7 (by decide), hcutoff 9 (by decide), u, v, _, _, hu, hv, rfl, rfl, hboth⟩

end Store
end MetricGateway
