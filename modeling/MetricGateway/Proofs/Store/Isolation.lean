import MetricGateway.Proofs.Store.Refinement

/-!
# A push touches only the series of its job

The labels of a push win over those of the payload, so every series that a push of a job can change has the label of
this job (`job_of_pushes`). All other series of a sound store stay as they are (`Sound.series?_ingestFamilies`), and so
do the headings of the families that were stored before (`Sound.heading?_ingestFamilies`), whatever the families of the
push are and whether or not they are refused.
-/

namespace MetricGateway

namespace Store

variable {s : Store} {injected : List Label} {job : String}

/-- Every series that is pushed under a job has the label of the job. -/
theorem job_of_pushes {o : StoreOptions} (hign : o.ignored.contains o.jobLabel = false)
    (hjob : lastValue? o.jobLabel injected = some job) {fs : List Family} {name : String} {labels : LabelSet}
    (h : Ledger.Pushes o injected fs name labels) : labels.get? o.jobLabel = some job := by
  obtain ⟨f, -, -, m, -, rfl⟩ := h
  simp [LabelSet.get?_canonical, hign, hjob]

/-- A push of a job leaves the series of other jobs as they are. -/
theorem Sound.series?_ingestFamilies (hs : s.Sound) (hign : s.options.ignored.contains s.options.jobLabel = false)
    (hjob : lastValue? s.options.jobLabel injected = some job) (now : Instant) (fs : List Family) {name : String}
    {labels : LabelSet} (hother : labels.get? s.options.jobLabel ≠ some job) :
    (s.ingestFamilies now injected fs).1.series? name labels = s.series? name labels := by
  apply Classical.byContradiction
  intro hne
  exact hother (job_of_pushes hign hjob (pushes_of_series?_ne hs now injected fs hne))

/-- A push leaves what is known of the families that are stored already. -/
theorem Sound.heading?_ingestFamilies (hs : s.Sound) (now : Instant) (fs : List Family) {name : String}
    {head : Heading} (h : s.heading? name = some head) :
    (s.ingestFamilies now injected fs).1.heading? name = some head := by
  rw [((agrees_ledger s).ingestFamilies hs now injected fs).heading]
  exact Ledger.heading_pushFamilies h now fs

/-- **A push touches only the series of its job.** In every store that a run reaches, a push whose last job label names
a job leaves each metric of another job, or of none, in its family as it is, whatever it pushes and whatever its result;
a metric that is new or changed is one of its job; and every family that was stored keeps its help, type and rules. -/
theorem push_touches_only_its_job (o : StoreOptions) (ops : List Operation) (now : Instant) {injected : List Label}
    {job : String} (hign : o.ignored.contains o.jobLabel = false) (hjob : lastValue? o.jobLabel injected = some job)
    (fs : List Family) :
    let s := (new o).run ops
    let t := (s.ingestFamilies now injected fs).1
    (∀ name, ∀ m ∈ s.metricsOf name, m.labels.get? o.jobLabel ≠ some job → m ∈ t.metricsOf name) ∧
      (∀ name, ∀ m ∈ t.metricsOf name, m ∉ s.metricsOf name → m.labels.get? o.jobLabel = some job) ∧
      ∀ name head, s.heading? name = some head → t.heading? name = some head := by
  intro s t
  have hs : s.Sound := sound_run o ops
  have ht : t.Sound := hs.ingestFamilies now injected fs
  have ho : s.options = o := run_options (new o) ops
  have hseries : ∀ name labels, labels.get? o.jobLabel ≠ some job → t.series? name labels = s.series? name labels := by
    intro name labels hother
    rw [← ho] at hign hjob hother
    exact hs.series?_ingestFamilies hign hjob now fs hother
  refine ⟨?_, ?_, ?_⟩
  · intro name m hm hother
    rw [ht.mem_metricsOf_iff, hseries name m.labels hother]
    exact (hs.mem_metricsOf_iff name m).mp hm
  · intro name m hm hnew
    apply Classical.byContradiction
    intro hother
    rw [ht.mem_metricsOf_iff, hseries name m.labels hother] at hm
    exact hnew ((hs.mem_metricsOf_iff name m).mpr hm)
  · intro name head h
    exact hs.heading?_ingestFamilies now fs h

/-- A push of one job, with an ignored label. -/
def firstJob : List Operation := [.pushFamilies 0 [⟨"job", "a"⟩] [requestsOf ⟨"Pod", "1"⟩]]

/-- The labels of a push that names two jobs, the second of which counts. -/
def secondJob : List Label := [⟨"job", "a"⟩, ⟨"job", "b"⟩]

/-- The pushed families name the first job, and one of them is refused. -/
theorem push_touches_only_its_job_secondJob :
    let o : StoreOptions := { ignored := .ofList ["pod"] }
    let s := (new o).run firstJob
    let fs := [requestsOf ⟨"job", "a"⟩, { requestsOf ⟨"job", "a"⟩ with type := .gauge }, requestsOf ⟨"path", "/"⟩]
    let t := (s.ingestFamilies 1 secondJob fs).1
    o.ignored.contains o.jobLabel = false ∧ lastValue? o.jobLabel secondJob = some "b" ∧
      (s.metricsOf "requests").map (·.labels.get? "job") = [some "a"] ∧
      (t.metricsOf "requests").map (·.labels.get? "job") = [some "a", some "b", some "b"] ∧
      ∀ m ∈ s.metricsOf "requests", m ∈ t.metricsOf "requests" := by
  intro o s fs t
  have hign : o.ignored.contains o.jobLabel = false := by decide +kernel
  have hjob : lastValue? o.jobLabel secondJob = some "b" := by decide
  have hbefore : (s.metricsOf "requests").map (·.labels.get? "job") = [some "a"] := by decide +kernel
  refine ⟨hign, hjob, hbefore, by decide +kernel, fun m hm => ?_⟩
  have hm' : m.labels.get? "job" ∈ [some "a"] := hbefore ▸ List.mem_map_of_mem hm
  refine (push_touches_only_its_job o firstJob 1 hign hjob fs).1 "requests" m hm ?_
  rw [show m.labels.get? o.jobLabel = some "a" from List.mem_singleton.mp hm']
  decide

end Store
end MetricGateway
