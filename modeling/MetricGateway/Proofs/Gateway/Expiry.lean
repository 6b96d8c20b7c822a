import MetricGateway.Proofs.Gateway.Run
import MetricGateway.Proofs.Store.Tracking

/-!
# What a gateway forgets under a time-to-live

With a time-to-live the handler of a push asks for a job label, the store notes the job, and the labels of the push
become those of its series. These three agree on the job, so that everything that a run stores is tracked by a job
(`tracked_run`), and a sweep after all jobs went silent leaves nothing (`holds_only_tracked_metrics`).
-/

namespace MetricGateway.Gateway

/-- A push to a gateway whose metrics expire is refused or names a job. -/
theorem tracked_push {g : Gateway} (hg : g.store.Tracked)
    (hign : g.store.options.ignored.contains g.store.options.jobLabel = false) (httl : g.store.options.ttl.isSome)
    (now : Instant) (labelPath : List Char) (r : Request) : (g.push now labelPath r).1.store.Tracked := by
  have houtcome := g.push_outcome now labelPath r
  generalize g.push now labelPath r = p at houtcome ⊢
  cases houtcome with
  | unauthorized | oddPath | missingJob | unreadable => exact hg
  | rejected hpasses | accepted hpasses =>
    obtain ⟨job, hjob⟩ := Option.ne_none_iff_exists'.mp (hpasses.named httl)
    exact Store.tracked_ingestFamilies hg hign hjob now _

theorem tracked_handle {g : Gateway} (hg : g.store.Tracked)
    (hign : g.store.options.ignored.contains g.store.options.jobLabel = false) (httl : g.store.options.ttl.isSome)
    (e : Event) : (g.handle e).store.Tracked := by
  cases e with
  | api now r =>
    show (g.api now r).1.store.Tracked
    rcases g.fst_api now r with h | ⟨labelPath, h⟩
    · rw [h]
      exact hg
    · rw [h]
      exact tracked_push hg hign httl now labelPath r
  | lifecycle r =>
    obtain ⟨gauges, h⟩ := g.exists_gauges_routeLifecycle r
    show (g.routeLifecycle r).1.store.Tracked
    rw [h]
    exact hg
  | sweep now =>
    show ((g.sweep now).getD g).store.Tracked
    unfold sweep
    cases hs : g.store.sweep now with
    | none => exact hg
    | some t => exact Store.tracked_sweep hg hs

/-- Every run keeps the store tracked; the options that this rests on do not change. -/
theorem tracked_run {g : Gateway} (hg : g.store.Tracked)
    (hign : g.store.options.ignored.contains g.store.options.jobLabel = false) (httl : g.store.options.ttl.isSome)
    (events : List Event) : (g.run events).store.Tracked := by
  induction events generalizing g with
  | nil => exact hg
  | cons e events ih =>
    have ho : (g.handle e).store.options = g.store.options := Store.options_of_changes (g.handle_frame e).2
    exact ih (tracked_handle hg hign httl e) (by rw [ho]; exact hign) (by rw [ho]; exact httl)

/-- **A time-to-live leaks nothing.** Let a gateway with a time-to-live start with an empty store, and let its job label
not be ignored. In every state that it reaches by requests and sweeps, each stored metric carries the job label with a
job that is tracked, and without a tracked job no family is stored. So a sweep at a time at which every tracked job has
been silent for longer than the time-to-live leaves no family and no job. -/
theorem holds_only_tracked_metrics {g : Gateway} {o : StoreOptions} (hnew : g.store = .new o) {ttl : Span}
    (httl : o.ttl = some ttl) (hign : o.ignored.contains o.jobLabel = false) (events : List Event) :
    (∀ name stored, (name, stored) ∈ (g.run events).store.families.entries → ∀ m ∈ stored.family.metrics,
        ∃ job last, m.labels.get? o.jobLabel = some job ∧ (job, last) ∈ (g.run events).store.pushJobs.entries) ∧
      ((g.run events).store.pushJobs.entries = [] → (g.run events).store.families.entries = []) ∧
      ∀ now : Instant, calendarStart ≤ now - ttl →
        (∀ job last, (job, last) ∈ (g.run events).store.pushJobs.entries → last < now - ttl) →
        ∃ g', (g.run events).sweep now = some g' ∧ g'.store.families.entries = [] ∧
          g'.store.pushJobs.entries = [] := by
  have hoptions : (g.run events).store.options = o := by
    rw [Store.options_of_changes (g.changes_run events), hnew]
    rfl
  have htracked : (g.run events).store.Tracked :=
    tracked_run (hnew ▸ Store.tracked_new o) (by rw [hnew]; exact hign) (by rw [hnew]; simp [Store.new, httl]) events
  simp only [Table.mem_entries_iff, Table.entries_eq_nil_iff]
  refine ⟨fun name stored hstored m hm => ?_, htracked.empty, fun now hnow hstale => ?_⟩
  · have htracks := htracked.tracks name stored hstored m hm
    rwa [Store.Tracks, hoptions] at htracks
  · have hsweep : (g.run events).store.sweep now = some ((g.run events).store.evict (now - ttl)) := by
      rw [Store.sweep, hoptions, httl]
      exact if_neg (Int.not_lt.mpr hnow)
    refine ⟨_, by rw [sweep, hsweep]; rfl, ?_⟩
    exact Store.evict_eq_empty htracked hstale

/-- A push that names its job twice, of a summary and of a counter that claims another job. -/
def twicePush : Request where
  method := "POST"
  uri := "/metrics/job/a/job/b"
  body := Utf8.bytesOf "# TYPE s summary\ns_sum 1\nx\x7bjob=\"c\"\x7d 1\n"

/-- The push of `twicePush` is sent twice, so that the summary is dropped and its family stays without metrics. The
sweep that finds the job `b` silent removes both families. -/
theorem holds_only_tracked_metrics_twicePush :
    (Store.new { ttl := some 5 }).options.ttl = some 5 ∧ IgnoredNames.contains ⟨[]⟩ "job" = false ∧
      ((Gateway.mk {} (.new { ttl := some 5 }) .empty 0 {}).run
        [.api 0 twicePush, .api 1 twicePush]).store.familySizes = [("s", 0), ("x", 1)] ∧
      ∃ g', ((Gateway.mk {} (.new { ttl := some 5 }) .empty 0 {}).run
        [.api 0 twicePush, .api 1 twicePush]).sweep 7 = some g' ∧ g'.store.families.entries = [] ∧
          g'.store.pushJobs.entries = [] := by
  have hjobs : ((Gateway.mk {} (.new { ttl := some 5 }) .empty 0 {}).run
      [.api 0 twicePush, .api 1 twicePush]).store.pushJobs.entries = [("b", 1)] := by decide +kernel
  obtain ⟨-, -, hsweep⟩ := holds_only_tracked_metrics (g := ⟨{}, .new { ttl := some 5 }, .empty, 0, {}⟩) rfl rfl rfl
    [.api 0 twicePush, .api 1 twicePush]
  refine ⟨rfl, rfl, by decide +kernel, hsweep 7 (by decide) fun job last h => ?_⟩
  rw [hjobs] at h
  cases List.mem_singleton.mp h
  decide

end MetricGateway.Gateway
