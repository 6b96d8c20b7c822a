import MetricGateway.Proofs.Gateway.Answers
import MetricGateway.Proofs.Gateway.SelfMetrics

/-!
# What the gateway reports about itself

The counts of pushes grow with the run: a request to the api adds one to the count of its job exactly if it is a push
that is answered 202 (`pushes_api`), so after a run the counts are those of its answers (`pushCount_run`), and a job is
listed as soon as it has one (`counted_run`).

The gauges are kept between two reports. Each report sets them anew, so it is one of the store as it stands, whatever
they held before (`reports_exactly`).
-/

namespace MetricGateway

/-- The report gives the numbers of a store and the counts of pushes that are not zero, each of them once. -/
structure SelfMetrics.Exact (report : SelfMetrics) (s : Store) (pushes : String → Nat) : Prop where
  totalFamilies : report.totalFamilies = s.families.size
  nodup_families : (report.metricsByFamily.map Prod.fst).Nodup
  mem_families : ∀ name n, (name, n) ∈ report.metricsByFamily ↔
    ∃ f, s.family? name = some f ∧ n = f.metrics.length
  nodup_jobs : (report.pushesByJob.map Prod.fst).Nodup
  mem_jobs : ∀ job n, (job, n) ∈ report.pushesByJob ↔ n ≠ 0 ∧ n = pushes job

namespace Gateway

/-! ## Counts of pushes -/

theorem isPushPath_of_apiPath? {path labelPath : List Char} (h : apiPath? path = some labelPath) :
    IsPushPath path := by
  unfold apiPath? at h
  split at h
  next hafter => exact .inl ((List.isPrefixOf?_eq_some_iff_append_eq.mp hafter).symm.trans (List.append_nil _))
  next c r hafter => exact .inr ⟨c :: r, by simp, (List.isPrefixOf?_eq_some_iff_append_eq.mp hafter).symm.trans rfl⟩
  next => cases h

/-- Only pushes are answered 202; other requests leave the gateway as it is. -/
theorem api_of_not_isPush (g : Gateway) (now : Instant) {r : Request} (hr : ¬ IsPush r) :
    (g.api now r).1 = g ∧ (g.api now r).2.status ≠ 202 := by
  unfold api
  dsimp only
  rw [status_withCors]
  split
  next labelPath hpath =>
    unfold routeApi
    dsimp only
    rw [if_neg fun hmethod => hr ⟨hmethod, isPushPath_of_apiPath? hpath⟩]
    split
    · exact ⟨rfl, show 200 ≠ 202 by decide⟩
    · split
      · exact ⟨rfl, show 200 ≠ 202 by decide⟩
      · split
        · exact ⟨rfl, show 200 ≠ 202 by decide⟩
        · exact ⟨rfl, show 405 ≠ 202 by decide⟩
  next =>
    split
    · exact ⟨rfl, show 200 ≠ 202 by decide⟩
    · exact ⟨rfl, show 404 ≠ 202 by decide⟩

/-- A request is answered 202 exactly if the count of its job grows, which takes a push; no other count changes. -/
theorem pushes_api (g : Gateway) (now : Instant) (r : Request) :
    (IsPush r ∧ (g.api now r).2.status = 202 ∧
        (g.api now r).1.pushes = g.pushes.insert ((g.job? r).getD "") (g.pushCount ((g.job? r).getD "") + 1)) ∨
      ((g.api now r).2.status ≠ 202 ∧ (g.api now r).1.pushes = g.pushes) := by
  by_cases hr : IsPush r
  · by_cases hadmits : g.Admits r
    · by_cases hmalformed : g.Malformed r
      · obtain ⟨hsame, hstatus⟩ := api_of_malformed now hr hadmits hmalformed
        exact .inr ⟨by simp [hstatus], by rw [hsame]⟩
      · obtain ⟨fs, -, -, haccepted, hrefused⟩ := api_of_not_malformed now hr hadmits hmalformed
        by_cases hnil : g.store.refusals now r.labels fs = []
        · exact .inl ⟨hr, haccepted hnil⟩
        · obtain ⟨hstatus, -, hpushes⟩ := hrefused hnil
          exact .inr ⟨by simp [hstatus], hpushes⟩
    · obtain ⟨hsame, hstatus⟩ := api_of_not_admits now hr hadmits
      exact .inr ⟨by simp [hstatus], by rw [hsame]⟩
  · obtain ⟨hsame, hstatus⟩ := api_of_not_isPush g now hr
    exact .inr ⟨hstatus, by rw [hsame]⟩

/-- The requests to the api in a run, with their answers. -/
def answers (g : Gateway) : List Event → List (Request × Answer)
  | [] => []
  | .api now r :: events => (r, (g.api now r).2) :: (g.handle (.api now r)).answers events
  | e :: events => (g.handle e).answers events

/-- The number of requests of a run that are answered 202 and whose job is the given one, the empty one for requests
without a job. -/
def acceptedPushes (g : Gateway) (events : List Event) (job : String) : Nat :=
  (g.answers events).countP fun (r, answer) => answer.status = 202 ∧ (g.job? r).getD "" = job

theorem job?_handle (g : Gateway) (e : Event) (r : Request) : (g.handle e).job? r = g.job? r := by
  rw [job?, job?, Store.options_of_changes (g.handle_frame e).2]

theorem pushes_sweep (g : Gateway) (now : Instant) : (g.handle (.sweep now)).pushes = g.pushes := by
  show ((g.sweep now).getD g).pushes = g.pushes
  unfold sweep
  cases g.store.sweep now <;> rfl

theorem pushes_routeLifecycle (g : Gateway) (r : Request) : (g.routeLifecycle r).1.pushes = g.pushes := by
  obtain ⟨gauges, h⟩ := g.exists_gauges_routeLifecycle r
  rw [h]
  rfl

theorem acceptedPushes_cons (g : Gateway) (e : Event) (events : List Event) (job : String) :
    g.acceptedPushes (e :: events) job = g.acceptedPushes [e] job + (g.handle e).acceptedPushes events job := by
  have happend : g.answers (e :: events) = g.answers [e] ++ (g.handle e).answers events := by cases e <;> rfl
  simp only [acceptedPushes, happend, List.countP_append, job?_handle]

theorem pushCount_handle (g : Gateway) (e : Event) (job : String) :
    (g.handle e).pushCount job = g.pushCount job + g.acceptedPushes [e] job := by
  cases e with
  | api now r =>
    have hcount : g.acceptedPushes [.api now r] job =
        if (g.api now r).2.status = 202 ∧ (g.job? r).getD "" = job then 1 else 0 := by
      simp [acceptedPushes, answers, List.countP_cons]
    show ((g.api now r).1.pushes.get? job).getD 0 = _
    rw [hcount]
    rcases g.pushes_api now r with ⟨-, hstatus, hpushes⟩ | ⟨hstatus, hpushes⟩
    · rw [hpushes, Table.get?_insert]
      by_cases hjob : (g.job? r).getD "" = job
      · rw [if_pos hjob, if_pos ⟨hstatus, hjob⟩, hjob]
        rfl
      · rw [if_neg hjob, if_neg fun h => hjob h.2]
        rfl
    · rw [hpushes, if_neg fun h => hstatus h.1]
      rfl
  | lifecycle r =>
    show ((g.routeLifecycle r).1.pushes.get? job).getD 0 = _
    rw [pushes_routeLifecycle]
    rfl
  | sweep now =>
    show ((g.handle (.sweep now)).pushes.get? job).getD 0 = _
    rw [pushes_sweep]
    rfl

/-- The counts after a run are those of its answers. -/
theorem pushCount_run (g : Gateway) (events : List Event) (job : String) :
    (g.run events).pushCount job = g.pushCount job + g.acceptedPushes events job := by
  induction events generalizing g with
  | nil => rfl
  | cons e events ih =>
    rw [acceptedPushes_cons, ← Nat.add_assoc, ← pushCount_handle]
    exact ih (g.handle e)

/-- No job is listed with a count of zero. -/
def Counted (g : Gateway) : Prop := ∀ job, g.pushes.get? job ≠ some 0

theorem counted_handle {g : Gateway} (h : g.Counted) (e : Event) : (g.handle e).Counted := by
  intro job
  cases e with
  | api now r =>
    show (g.api now r).1.pushes.get? job ≠ some 0
    rcases g.pushes_api now r with ⟨-, -, hpushes⟩ | ⟨-, hpushes⟩
    · rw [hpushes, Table.get?_insert]
      split
      · simp
      · exact h job
    · rw [hpushes]
      exact h job
  | lifecycle r =>
    show (g.routeLifecycle r).1.pushes.get? job ≠ some 0
    rw [pushes_routeLifecycle]
    exact h job
  | sweep now =>
    rw [pushes_sweep]
    exact h job

theorem counted_run {g : Gateway} (h : g.Counted) (events : List Event) : (g.run events).Counted := by
  induction events generalizing g with
  | nil => exact h
  | cons e events ih => exact ih (counted_handle h e)

theorem Counted.mem_pushes_iff {g : Gateway} (h : g.Counted) (job : String) (n : Nat) :
    (job, n) ∈ g.pushes.entries ↔ n ≠ 0 ∧ n = g.pushCount job := by
  rw [Table.mem_entries_iff, pushCount]
  cases hjob : g.pushes.get? job with
  | none => simp
  | some m =>
    have hm : m ≠ 0 := fun hm => h job (hm ▸ hjob)
    rw [Option.some_inj, Option.getD_some]
    constructor
    · rintro rfl
      exact ⟨hm, rfl⟩
    · rintro ⟨-, rfl⟩
      rfl

/-- Every request of a run that is answered 202 is a push. -/
theorem isPush_of_mem_answers {g : Gateway} {events : List Event} {r : Request} {answer : Answer}
    (h : (r, answer) ∈ g.answers events) (hstatus : answer.status = 202) : IsPush r := by
  fun_induction answers g events with
  | case1 => cases h
  | case2 g now r' events ih =>
    rcases List.mem_cons.mp h with h | h
    · cases h
      by_contra hr
      exact (api_of_not_isPush g now hr).2 hstatus
    · exact ih h
  | case3 g e events _ ih => exact ih h

/-! ## The report -/

/-- A report is exact if no job is listed with a count of zero, whatever the gauges were. -/
theorem exact_observe {g : Gateway} (h : g.Counted) (gauges : Gauges) :
    (g.withGauges gauges).observe.selfMetrics.Exact g.store g.pushCount where
  totalFamilies := gauges.totalFamilies_observe g.store
  nodup_families := Table.nodup_keys _
  mem_families name n := by
    show (name, n) ∈ (gauges.observe g.store).metricsByFamily.entries ↔ _
    rw [gauges.metricsByFamily_observe, Table.mem_entries_iff, Table.get?_map, Store.family?]
    cases g.store.families.get? name with
    | none => simp
    | some stored => simp [eq_comm]
  nodup_jobs := g.pushes.nodup_keys
  mem_jobs := h.mem_pushes_iff

/-- **The gateway's own metrics are exact.** In every state that the gateway reaches, whatever the gauges were set to
before, a request for its own metrics is answered with a report that gives the number of stored families, each stored
family once with the number of its metrics and no other family, and each job for which a push was answered 202 with the
number of these pushes. Only pushes are answered 202. The lines of the answer for these numbers are one for the total,
and one for each family and each job that is listed; they are the lines of its text if no name has a line feed. -/
theorem reports_exactly (settings : CommandLine.Settings) (events : List Event) (gauges : Gauges) (r : Request)
    (hget : r.method = "GET") (hpath : r.path = "/metrics".toList) :
    let g := (settings.gateway.run events).withGauges gauges
    let report := g.observe.selfMetrics
    g.lifecycle r = .ofText 200 "application/openmetrics-text; version=1.0.0; charset=utf-8" report.text ∧
      report.Exact g.store (settings.gateway.acceptedPushes events) ∧
      (∀ r' answer, (r', answer) ∈ settings.gateway.answers events → answer.status = 202 → IsPush r') ∧
      report.linesStarting "prom_agg_gateway_total_families" =
        [s!"prom_agg_gateway_total_families {report.totalFamilies}"] ∧
      report.linesStarting "prom_agg_gateway_metrics_by_family" = (report.metricsByFamily.map fun (name, n) =>
        s!"prom_agg_gateway_metrics_by_family\x7bfamily=\"{name}\"\x7d {n}") ∧
      report.linesStarting "prom_agg_gateway_metric_pushes" = (report.pushesByJob.map fun (job, n) =>
        s!"prom_agg_gateway_metric_pushes_total\x7bpush_job=\"{job}\"\x7d {n}") ∧
      ((∀ e ∈ report.metricsByFamily ++ report.pushesByJob, '\n' ∉ e.1.toList) →
        TextFormat.linesOf report.text.toList = report.lines.map String.toList ++ [[]]) := by
  intro g report
  have hcounts : (settings.gateway.run events).pushCount = settings.gateway.acceptedPushes events :=
    funext fun job => (settings.gateway.pushCount_run events job).trans (Nat.zero_add _)
  have hcounted : (settings.gateway.run events).Counted := counted_run (fun _ h => by cases h) events
  refine ⟨?_, hcounts ▸ exact_observe hcounted gauges, fun r' answer h => isPush_of_mem_answers h,
    report.linesStarting_totalFamilies, report.linesStarting_metricsByFamily, report.linesStarting_metricPushes,
    SelfMetrics.linesOf_text⟩
  rw [lifecycle, routeLifecycle, hpath, hget]
  rfl

/-- Settings under which metrics expire. -/
def expiring : CommandLine.Settings := { metricTtl := some 5 }

/-- A push of the job `a` with the given text. -/
def pushOfA (text : String) : Request where
  method := "PUT"
  uri := "/metrics/job/b/job/a"
  body := Utf8.bytesOf text

/-- The job `a` pushes two families, which are swept away, then one of them and another one, of which the latter is
refused, and then the first one alone again. What a report in between left in the gauges is gone. -/
theorem reports_exactly_expiring :
    let events : List Event := [.api 0 (pushOfA "x 1\ny 1\n"), .lifecycle { uri := "/metrics" }, .sweep 9000,
      .api 9000 (pushOfA "x 1\nz\x7b__name=\"\"\x7d 1\n"), .api 9001 (pushOfA "x 1\n")]
    let g := expiring.gateway.run events
    g.gauges.totalFamilies = 2 ∧ g.gauges.metricsByFamily.entries = [("x", 1), ("y", 1)] ∧
      ∃ report : SelfMetrics, report.totalFamilies = 1 ∧ report.metricsByFamily = [("x", 1)] ∧
        ("a", 2) ∈ report.pushesByJob ∧
        report.linesStarting "prom_agg_gateway_total_families" = ["prom_agg_gateway_total_families 1"] ∧
        report.linesStarting "prom_agg_gateway_metrics_by_family" =
          ["prom_agg_gateway_metrics_by_family\x7bfamily=\"x\"\x7d 1"] ∧
        g.lifecycle { uri := "/metrics" } =
          .ofText 200 "application/openmetrics-text; version=1.0.0; charset=utf-8" report.text := by
  intro events g
  have hreport := reports_exactly expiring events g.gauges { uri := "/metrics" } rfl (by decide +kernel)
  have hsame : (expiring.gateway.run events).withGauges g.gauges = g := withGauges_gauges g
  rw [hsame] at hreport
  obtain ⟨hanswer, hexact, -, htotal, hfamilies, -, -⟩ := hreport
  have hsizes : g.observe.selfMetrics.totalFamilies = 1 ∧ g.observe.selfMetrics.metricsByFamily = [("x", 1)] := by
    decide +kernel
  rw [hsizes.1] at htotal
  rw [hsizes.2] at hfamilies
  exact ⟨by decide +kernel, by decide +kernel, g.observe.selfMetrics, hsizes.1, hsizes.2,
    (hexact.mem_jobs "a" 2).mpr ⟨by decide, by decide +kernel⟩, htotal.trans (by decide +kernel),
    hfamilies.trans (by decide +kernel), hanswer⟩

end Gateway
end MetricGateway
