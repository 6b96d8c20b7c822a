import MetricGateway.Proofs.CommandLine.Options
import MetricGateway.Proofs.Gateway.Run
import MetricGateway.Proofs.Store.Sweeps

/-!
# The periodic sweeper of a gateway

The time-to-live may be any number of seconds that 64 bits hold, but a sweep takes it off the current time, and the
calendar starts in the year -9999. A sweep is possible exactly if the time-to-live is not longer than the time since
then, and the sweeper keeps running exactly if its first sweep is possible (`sweeper_runs_iff`). With the longest
time-to-live it ends at its first tick (`sweeper_ends`).
-/

namespace MetricGateway

/-- A sweeper whose first sweep is not possible ends without a sweep. -/
theorem Store.sweepEvery_of_not_hasCutoff {s : Store} {period : Span} {now : Instant}
    (h : ¬ s.HasCutoff (now + period)) (ticks : Nat) : s.sweepEvery period now ticks = (s, []) := by
  cases ticks with
  | zero => rfl
  | succ ticks =>
    rw [← isSome_sweep_iff, Option.not_isSome_iff_eq_none] at h
    rw [sweepEvery, h]

namespace Gateway

/-- A gateway that was started with settings can sweep at the times that lie at least the time-to-live behind the start
of the calendar. -/
theorem hasCutoff_run_iff (settings : CommandLine.Settings) (events : List Event) (now : Instant) :
    (settings.gateway.run events).store.HasCutoff now ↔
      ∀ n, settings.ttl = some n → (1000 * n.toNat : Nat) ≤ now - calendarStart := by
  have hoptions : (settings.gateway.run events).store.options = settings.storeOptions :=
    Store.options_of_changes (changes_run settings.gateway events)
  have httl : settings.storeOptions.ttl = settings.ttl.map fun n => 1000 * n.toNat := rfl
  simp only [Store.HasCutoff, hoptions, httl, Option.map_eq_some_iff]
  constructor
  · intro h n hn
    exact le_sub_comm.mp (h _ ⟨n, hn, rfl⟩)
  · rintro h _ ⟨n, hn, rfl⟩
    exact le_sub_comm.mp (h n hn)

/-- **When the sweeper keeps running.** The command line takes every number of seconds as the time-to-live. In every
state that the gateway reaches, a sweep is possible exactly if the time-to-live, if there is one, is not longer than the
time since the start of the calendar. So the periodic sweeper sweeps at every tick exactly if this holds at its first
tick, and otherwise it ends there and leaves everything as it is. -/
theorem sweeper_runs_iff (settings : CommandLine.Settings) (events : List Event) :
    let s := (settings.gateway.run events).store
    (∀ n : CommandLine.Seconds, CommandLine.read ["--metric-ttl", toString n.toNat] (fun _ => none) =
        .ok { metricTtl := some n }) ∧
      (∀ now : Instant, (s.sweep now).isSome ↔
        ∀ n, settings.ttl = some n → (1000 * n.toNat : Nat) ≤ now - calendarStart) ∧
      ∀ (period : Span) (now : Instant) (ticks : Nat),
        ((s.sweepEvery period now (ticks + 1)).2.length = ticks + 1 ↔
          ∀ n, settings.ttl = some n → (1000 * n.toNat : Nat) ≤ now + period - calendarStart) ∧
        ((s.sweepEvery period now (ticks + 1)).2.length ≠ ticks + 1 →
          s.sweepEvery period now (ticks + 1) = (s, [])) := by
  intro s
  refine ⟨CommandLine.read_metricTtl, fun now => ?_, fun period now ticks => ?_⟩
  · rw [Store.isSome_sweep_iff]
    exact hasCutoff_run_iff settings events now
  · rw [← hasCutoff_run_iff settings events (now + period)]
    by_cases h : s.HasCutoff (now + period)
    · obtain ⟨t, stats, hticks, hlength, -⟩ := Store.sweepEvery_spec h ticks
      rw [hticks]
      exact ⟨iff_of_true hlength h, fun hne => absurd hlength hne⟩
    · rw [Store.sweepEvery_of_not_hasCutoff h]
      exact ⟨iff_of_false (Nat.succ_ne_zero ticks).symm h, fun _ => rfl⟩

/-- A push of one sample under the job `a`. -/
def pushOne : Request where
  method := "POST"
  uri := "/metrics/job/a"
  body := Utf8.bytesOf "x 1\n"

/-- With the longest time-to-live there is no sweep, in November 2023 at least, and the sweeper ends at its first tick
instead of its third one. -/
theorem sweeper_ends :
    ∃ settings, CommandLine.read ["--metric-ttl", "18446744073709551615"] (fun _ => none) = .ok settings ∧
      (settings.gateway.api 1700000000000 pushOne).2.status = 202 ∧
      let s := (settings.gateway.run [.api 1700000000000 pushOne]).store
      s.pushJobs.get? "a" = some 1700000000000 ∧ s.sweep 1700000060000 = none ∧
        (s.sweepEvery 60000 1700000000000 3).2 = [] := by
  exact ⟨{ metricTtl := some 18446744073709551615 }, by decide +kernel, by decide +kernel⟩

end Gateway
end MetricGateway
