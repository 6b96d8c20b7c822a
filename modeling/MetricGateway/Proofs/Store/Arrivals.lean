import MetricGateway.Proofs.Store.Commit
import MetricGateway.Proofs.Store.Refinement

/-!
# What a series is made of

Without sweeps, the store holds of a series what its arrivals make together: the metrics that the accepted families of
the pushes bring for it, joined one after the other (`series?_run`). The heading of a family stays from the first
arrival on (`heading?_run`), so all of them are joined by one policy, and they have the type of the family
(`type_of_mem_arrivals`). What they have in common and combining keeps, the series has, also if there are sweeps
(`forall_series?_run`).
-/

namespace MetricGateway

/-- Metrics are joined one after the other in the place of their series. -/
theorem Ledger.series_foldl_add_eq (name : String) (policy : AggregationPolicy) (l : Ledger)
    (ms : List (Metric Binary64)) (labels : LabelSet) : (ms.foldl (add name policy) l).series name labels =
      (ms.filter (·.labels = labels)).foldl (joined policy) (l.series name labels) := by
  induction ms generalizing l with
  | nil => rfl
  | cons m ms ih =>
    rw [List.foldl_cons, ih]
    by_cases hl : m.labels = labels
    · have hplace : (l.add name policy m).series name labels = joined policy (l.series name labels) m :=
        if_pos ⟨rfl, hl.symm⟩
      rw [hplace, List.filter_cons_of_pos (by simpa using hl), List.foldl_cons]
    · have hplace : (l.add name policy m).series name labels = l.series name labels :=
        if_neg fun h => hl h.2.symm
      rw [hplace, List.filter_cons_of_neg (by simpa using hl)]

/-- Where metrics with a property can be combined into one with the property, they are joined into one. -/
theorem Ledger.forall_foldl_joined {policy : AggregationPolicy} {Q : Metric Binary64 → Prop}
    (hcombine : ∀ a b, Q a → Q b → ∃ c, a.combine policy b = some c ∧ Q c) {ms : List (Metric Binary64)}
    (hms : ∀ m ∈ ms, Q m) {present : Option (Metric Binary64)} (hpresent : ∀ m, present = some m → Q m) :
    (∀ m, ms.foldl (joined policy) present = some m → Q m) ∧
      (ms.foldl (joined policy) present = none ↔ present = none ∧ ms = []) := by
  induction ms generalizing present with
  | nil => exact ⟨hpresent, by simp⟩
  | cons m ms ih =>
    obtain ⟨hm, hms⟩ := List.forall_mem_cons.mp hms
    obtain ⟨c, hc, hQ⟩ : ∃ c, joined policy present m = some c ∧ Q c := by
      cases present with
      | none => exact ⟨m, rfl, hm⟩
      | some a => exact hcombine a m (hpresent a rfl) hm
    rw [List.foldl_cons, hc]
    have hjoined : ∀ m', some c = some m' → Q m' := fun m' h => Option.some.inj h ▸ hQ
    obtain ⟨hall, hnone⟩ := ih hms hjoined
    exact ⟨hall, by simp [hnone]⟩

/-- Sweeping. -/
def Operation.isSweep : Operation → Bool
  | sweep _ => true
  | _ => false

/-- The metrics of a series in families, under canonical labels. -/
def metricsFor (o : StoreOptions) (injected : List Label) (name : String) (labels : LabelSet) (fs : List Family) :
    List (Metric Binary64) :=
  ((fs.filter (·.name = name)).flatMap fun f => (f.canonical injected o.ignored).metrics).filter (·.labels = labels)

theorem metricsFor_append (o : StoreOptions) (injected : List Label) (name : String) (labels : LabelSet)
    (fs gs : List Family) : metricsFor o injected name labels (fs ++ gs) =
      metricsFor o injected name labels fs ++ metricsFor o injected name labels gs := by
  simp [metricsFor]

theorem exists_of_mem_metricsFor {o : StoreOptions} {injected : List Label} {name : String} {labels : LabelSet}
    {fs : List Family} {m : Metric Binary64} (h : m ∈ metricsFor o injected name labels fs) :
    ∃ f ∈ fs, f.name = name ∧ ∃ m₀ ∈ f.metrics, m.value = m₀.value := by
  obtain ⟨f, hf, hm⟩ := List.mem_flatMap.mp (List.mem_filter.mp h).1
  obtain ⟨hf, hname⟩ := List.mem_filter.mp hf
  obtain ⟨m₀, hm₀, rfl⟩ := List.mem_map.mp hm
  exact ⟨f, hf, of_decide_eq_true hname, m₀, hm₀, rfl⟩

namespace Store

/-! ## One family -/

section Family

variable {s t : Store} {injected : List Label} {f : Family} {name : String}

theorem heading?_ingestFamily (hs : s.Sound) (h : s.ingestFamily injected f = .ok t) {head : Heading}
    (hhead : s.heading? name = some head) : t.heading? name = some head := by
  have hagrees := agrees_ledger s
  rw [(hagrees.ingestFamily hs h).heading, hagrees.pushFamily_eq hs h]
  exact Ledger.heading_addFamily hhead _

/-- An accepted family with a metric has the type of its heading. -/
theorem heading?_of_accepted (h : s.ingestFamily injected f = .ok t) (hne : f.metrics ≠ []) :
    ∃ head, t.heading? f.name = some head ∧ head.type = f.type := by
  obtain ⟨g, hg, hcases⟩ := ingestFamily_eq_ok h
  obtain ⟨-, -, rfl⟩ := (s.prepare_eq_ok_iff injected f g).mp hg
  rcases hcases with ⟨hnil, -⟩ | ⟨-, -, rfl⟩ | ⟨-, stored, k, hstored, hk, rfl⟩
  · have hempty := (isEmpty_sortMetrics _).mp (List.isEmpty_iff.mpr hnil)
    exact absurd (List.map_eq_nil_iff.mp hempty) hne
  · exact ⟨_, (heading?_put ..).trans (if_pos rfl), rfl⟩
  · obtain ⟨htype, rfl⟩ := (Family.merge_eq_ok_iff _ _ _ _).mp hk
    exact ⟨_, (heading?_put ..).trans (if_pos rfl), htype⟩

/-- An accepted family joins its metrics to what is stored. -/
theorem series?_ingestFamily (hs : s.Sound) (h : s.ingestFamily injected f = .ok t) {policy : AggregationPolicy}
    (hpolicy : ∀ head, t.heading? name = some head → head.policy = policy) (labels : LabelSet) :
    t.series? name labels =
      (metricsFor s.options injected name labels [f]).foldl (Ledger.joined policy) (s.series? name labels) := by
  have hagrees := agrees_ledger s
  have hafter := hagrees.ingestFamily hs h
  rw [hagrees.pushFamily_eq hs h] at hafter
  have hseries := hafter.series name labels
  have hheading := hafter.heading name
  change t.series? name labels = _ at hseries
  rw [hseries]
  by_cases hname : f.name = name
  · have hfor : metricsFor s.options injected name labels [f] =
        (f.canonical injected s.options.ignored).metrics.filter (·.labels = labels) := by
      simp [metricsFor, hname]
    rw [hfor]
    unfold Ledger.addFamily at hheading ⊢
    generalize hg : f.canonical injected s.options.ignored = g at hheading ⊢
    have hgname : g.name = name := by
      rw [← hg]
      exact hname
    split
    next hnil =>
      rw [hnil]
      rfl
    next hne =>
      rw [if_neg hne, Ledger.heading_foldl_add] at hheading
      dsimp only at hheading
      rw [if_pos hgname.symm] at hheading
      rw [hpolicy _ hheading, hgname, Ledger.series_foldl_add_eq]
      rfl
  · have hfor : metricsFor s.options injected name labels [f] = [] := by simp [metricsFor, hname]
    rw [hfor]
    exact Ledger.series_addFamily_of_ne s.ledger fun h => absurd h hname

end Family

/-! ## One push -/

/-- What every accepted family keeps holds of the accepted families of a push and the store after it. -/
theorem accepted_induction {s : Store} {now : Instant} {injected : List Label} {I : List Family → Store → Prop}
    (hnil : I [] (s.recordPush now injected))
    (hstep : ∀ before f t, (s.ingestFamilies now injected before).1.ingestFamily injected f = .ok t →
      I (s.accepted now injected before) (s.ingestFamilies now injected before).1 →
      I (s.accepted now injected before ++ [f]) t)
    (fs : List Family) : I (s.accepted now injected fs) (s.ingestFamilies now injected fs).1 := by
  induction fs using List.reverseRecOn with
  | nil => exact hnil
  | append_singleton fs f ih =>
    rw [accepted_concat, fst_ingestFamilies]
    cases hf : s.refusal? now injected fs f with
    | none =>
      obtain ⟨t, ht⟩ := refusal?_eq_none_iff.mp hf
      rw [ingestEach_concat_of_ok (ingestEach_eq s now injected fs).1 ht]
      exact hstep fs f t ht ih
    | some e =>
      have he := refusal?_eq_some_iff.mp hf
      rw [ingestEach_concat_of_error (ingestEach_eq s now injected fs).1 he, Option.isNone_some,
        if_neg Bool.false_ne_true, List.append_nil]
      exact ih

section Push

variable {s : Store} (hs : s.Sound) (now : Instant) (injected : List Label) (fs : List Family)
include hs

theorem heading?_ingestFamilies {name : String} {head : Heading} (h : s.heading? name = some head) :
    (s.ingestFamilies now injected fs).1.heading? name = some head := by
  rw [((agrees_ledger s).ingestFamilies hs now injected fs).heading]
  exact Ledger.heading_pushFamilies h now fs

/-- Accepted families with metrics have the type of the heading. -/
theorem heading?_of_mem_accepted : ∀ f ∈ s.accepted now injected fs, f.metrics ≠ [] →
    ∃ head, (s.ingestFamilies now injected fs).1.heading? f.name = some head ∧ head.type = f.type := by
  refine accepted_induction (I := fun accepted t => ∀ f ∈ accepted, f.metrics ≠ [] →
    ∃ head, t.heading? f.name = some head ∧ head.type = f.type) (fun f hf => by cases hf) ?_ fs
  intro before g t ht ih f hf hne
  rcases List.mem_append.mp hf with hf | hf
  · obtain ⟨head, hhead, htype⟩ := ih f hf hne
    exact ⟨head, heading?_ingestFamily (hs.ingestFamilies now injected before) ht hhead, htype⟩
  · cases List.mem_singleton.mp hf
    exact heading?_of_accepted ht hne

/-- The accepted families of a push join their metrics to what is stored. -/
theorem series?_ingestFamilies (name : String) (labels : LabelSet) {policy : AggregationPolicy}
    (hpolicy : ∀ head, (s.ingestFamilies now injected fs).1.heading? name = some head → head.policy = policy) :
    (s.ingestFamilies now injected fs).1.series? name labels =
      (metricsFor s.options injected name labels (s.accepted now injected fs)).foldl (Ledger.joined policy)
        (s.series? name labels) := by
  refine accepted_induction (I := fun accepted t => (∀ head, t.heading? name = some head → head.policy = policy) →
    t.series? name labels = (metricsFor s.options injected name labels accepted).foldl (Ledger.joined policy)
      (s.series? name labels)) (fun _ => ?_) ?_ fs hpolicy
  · show (s.recordPush now injected).series? name labels = s.series? name labels
    simp only [series?, metricsOf, family?, families_recordPush]
  · intro before f t ht ih hpolicy
    have hsound := hs.ingestFamilies now injected before
    rw [series?_ingestFamily hsound ht hpolicy, options_ingestFamilies,
      ih fun head h => hpolicy head (heading?_ingestFamily hsound ht h), metricsFor_append, List.foldl_append]

end Push

/-! ## Arrivals -/

/-- What an operation brings for a series: its metrics in the families that are accepted. -/
def brings (s : Store) (name : String) (labels : LabelSet) : Operation → List (Metric Binary64)
  | .push now injected format payload =>
    match format.read payload with
    | .error _ => []
    | .ok fs => metricsFor s.options injected name labels (s.accepted now injected fs)
  | .pushFamilies now injected fs => metricsFor s.options injected name labels (s.accepted now injected fs)
  | .sweep _ => []

/-- What operations bring for a series, one after the other. -/
def arrivals (s : Store) (name : String) (labels : LabelSet) : List Operation → List (Metric Binary64)
  | [] => []
  | op :: ops => s.brings name labels op ++ (s.perform op).arrivals name labels ops

/-- A push changes nothing and brings nothing, or its families are pushed. -/
theorem perform_of_isSweep_eq_false (s : Store) {op : Operation} (h : op.isSweep = false) :
    (s.perform op = s ∧ ∀ name labels, s.brings name labels op = []) ∨
      ∃ now injected, s.perform op = (s.ingestFamilies now injected op.families).1 ∧
        ∀ name labels, s.brings name labels op =
          metricsFor s.options injected name labels (s.accepted now injected op.families) := by
  cases op with
  | push now injected format payload =>
    cases hr : format.read payload with
    | error fault => exact .inl ⟨by rw [perform, ingest, hr], fun name labels => by rw [brings, hr]⟩
    | ok fs =>
      refine .inr ⟨now, injected, ?_, fun name labels => ?_⟩
      · rw [perform, ingest, Operation.families, hr]
      · rw [brings, Operation.families, hr]
  | pushFamilies now injected fs => exact .inr ⟨now, injected, rfl, fun _ _ => rfl⟩
  | sweep now => cases h

theorem arrivals_append (s : Store) (name : String) (labels : LabelSet) (ops ops' : List Operation) :
    s.arrivals name labels (ops ++ ops') = s.arrivals name labels ops ++ (s.run ops).arrivals name labels ops' := by
  induction ops generalizing s with
  | nil => rfl
  | cons op ops ih =>
    rw [List.cons_append, arrivals, arrivals, ih, List.append_assoc]
    rfl

/-- What arrives first is not changed by what follows. -/
theorem prefix_arrivals (s : Store) (name : String) (labels : LabelSet) {ops ops' : List Operation}
    (h : ops <+: ops') : s.arrivals name labels ops <+: s.arrivals name labels ops' := by
  obtain ⟨rest, rfl⟩ := h
  rw [arrivals_append]
  exact List.prefix_append _ _

section Run

variable {s : Store} (hs : s.Sound) {ops : List Operation} (hops : ∀ op ∈ ops, op.isSweep = false)
include hs hops

/-- Headings stay. -/
theorem heading?_run {name : String} {head : Heading} (h : s.heading? name = some head) :
    (s.run ops).heading? name = some head := by
  induction ops generalizing s with
  | nil => exact h
  | cons op ops ih =>
    obtain ⟨hop, hrest⟩ := List.forall_mem_cons.mp hops
    have hsound := sound_of_changes (changes_perform (P := fun _ => True) s op fun _ _ => trivial) hs
    refine ih hsound hrest ?_
    rcases s.perform_of_isSweep_eq_false hop with ⟨hperform, -⟩ | ⟨now, injected, hperform, -⟩
    · rw [hperform]
      exact h
    · rw [hperform]
      exact heading?_ingestFamilies hs now injected op.families h

/-- Without sweeps, the store holds of a series what its arrivals make together. -/
theorem series?_run (name : String) (labels : LabelSet) {policy : AggregationPolicy}
    (hpolicy : ∀ head, (s.run ops).heading? name = some head → head.policy = policy) :
    (s.run ops).series? name labels =
      (s.arrivals name labels ops).foldl (Ledger.joined policy) (s.series? name labels) := by
  induction ops generalizing s with
  | nil => rfl
  | cons op ops ih =>
    obtain ⟨hop, hrest⟩ := List.forall_mem_cons.mp hops
    have hsound := sound_of_changes (changes_perform (P := fun _ => True) s op fun _ _ => trivial) hs
    rw [arrivals, List.foldl_append]
    refine (ih hsound hrest hpolicy).trans (congrArg (List.foldl _ · _) ?_)
    rcases s.perform_of_isSweep_eq_false hop with ⟨hperform, hbrings⟩ | ⟨now, injected, hperform, hbrings⟩
    · rw [hperform, hbrings]
      rfl
    · rw [hbrings]
      rw [hperform] at hsound ⊢
      refine series?_ingestFamilies hs now injected op.families name labels fun head h => hpolicy head ?_
      have hlater := heading?_run hsound hrest h
      rwa [← hperform] at hlater

/-- What arrives for a series is of the type of its family, if each family has metrics of its type. -/
theorem type_of_mem_arrivals (htyped : ∀ op ∈ ops, ∀ f ∈ op.families, ∀ m ∈ f.metrics, m.value.type = f.type)
    {name : String} {labels : LabelSet} : ∀ m ∈ s.arrivals name labels ops,
      ∃ head, (s.run ops).heading? name = some head ∧ m.value.type = head.type := by
  induction ops generalizing s with
  | nil =>
    intro m hm
    cases hm
  | cons op ops ih =>
    obtain ⟨hop, hrest⟩ := List.forall_mem_cons.mp hops
    obtain ⟨htyped, htypedRest⟩ := List.forall_mem_cons.mp htyped
    have hsound := sound_of_changes (changes_perform (P := fun _ => True) s op fun _ _ => trivial) hs
    intro m hm
    rcases List.mem_append.mp hm with hm | hm
    · rcases s.perform_of_isSweep_eq_false hop with ⟨-, hbrings⟩ | ⟨now, injected, hperform, hbrings⟩
      · rw [hbrings] at hm
        cases hm
      · rw [hbrings] at hm
        obtain ⟨f, hf, rfl, m₀, hm₀, hvalue⟩ := exists_of_mem_metricsFor hm
        obtain ⟨head, hhead, htype⟩ :=
          heading?_of_mem_accepted hs now injected op.families f hf (List.ne_nil_of_mem hm₀)
        rw [← hperform] at hhead
        refine ⟨head, heading?_run hsound hrest hhead, ?_⟩
        rw [hvalue, htyped f ((accepted_sublist s now injected _).subset hf) m₀ hm₀, htype]
    · exact ih hsound hrest htypedRest m hm

end Run

/-! ## What arrivals have in common -/

/-- The metrics of a name are joined by one policy at a time. -/
theorem exists_policy (s : Store) (name : String) :
    ∃ policy, ∀ head, s.heading? name = some head → head.policy = policy := by
  cases s.heading? name with
  | none => exact ⟨{}, fun _ h => (by cases h)⟩
  | some head => exact ⟨head.policy, fun head' h => Option.some.inj h ▸ rfl⟩

/-- A sweep removes a series, or it stays. -/
theorem series?_sweep {s : Store} (hs : s.Sound) (now : Instant) (name : String) (labels : LabelSet) :
    (s.perform (.sweep now)).series? name labels = none ∨
      (s.perform (.sweep now)).series? name labels = s.series? name labels := by
  rw [((agrees_ledger s).perform hs (.sweep now)).series name labels, Ledger.perform, Ledger.sweep]
  cases s.options.ttl with
  | none => exact .inr rfl
  | some ttl =>
    dsimp only
    split
    · show Ledger.freshSeries _ _ _ name labels = none ∨ Ledger.freshSeries _ _ _ name labels = _
      unfold Ledger.freshSeries
      split
      · exact .inl rfl
      · exact .inr rfl
    · exact .inr rfl

/-- An operation joins what it brings to a series, or it is a sweep and removes the series. -/
theorem series?_perform {s : Store} (hs : s.Sound) (op : Operation) (name : String) (labels : LabelSet) :
    (op.isSweep = true ∧ (s.perform op).series? name labels = none) ∨
      ∃ policy, (s.perform op).series? name labels =
        (s.brings name labels op).foldl (Ledger.joined policy) (s.series? name labels) := by
  cases hop : op.isSweep with
  | true =>
    cases op with
    | sweep now => exact (series?_sweep hs now name labels).imp (fun h => ⟨rfl, h⟩) fun h => ⟨{}, h⟩
    | _ => cases hop
  | false =>
    refine .inr ?_
    rcases s.perform_of_isSweep_eq_false hop with ⟨hperform, hbrings⟩ | ⟨now, injected, hperform, hbrings⟩
    · refine ⟨{}, ?_⟩
      rw [hperform, hbrings]
      rfl
    · obtain ⟨policy, hpolicy⟩ := exists_policy (s.perform op) name
      rw [hperform] at hpolicy ⊢
      rw [hbrings]
      exact ⟨policy, series?_ingestFamilies hs now injected op.families name labels hpolicy⟩

/-- **What all arrivals have in common, the series has.** Let metrics with a property be combined into one with it, and
let every arrival for a series have it. Then whatever is stored of the series has the property, and without sweeps the
series is stored as soon as something has arrived. -/
theorem forall_series?_run {Q : Metric Binary64 → Prop}
    (hcombine : ∀ policy a b, Q a → Q b → ∃ c, Metric.combine policy a b = some c ∧ Q c) {s : Store} (hs : s.Sound)
    {ops : List Operation} {name : String} {labels : LabelSet} (harrivals : ∀ m ∈ s.arrivals name labels ops, Q m)
    (hstart : ∀ m, s.series? name labels = some m → Q m) :
    (∀ m, (s.run ops).series? name labels = some m → Q m) ∧
      ((∀ op ∈ ops, op.isSweep = false) → ((s.run ops).series? name labels = none ↔
        s.series? name labels = none ∧ s.arrivals name labels ops = [])) := by
  induction ops generalizing s with
  | nil => exact ⟨hstart, fun _ => by simp [run, arrivals]⟩
  | cons op ops ih =>
    have hsound := sound_of_changes (changes_perform (P := fun _ => True) s op fun _ _ => trivial) hs
    obtain ⟨hbrings, hrest⟩ := List.forall_mem_append.mp harrivals
    rcases series?_perform hs op name labels with ⟨hsweep, hgone⟩ | ⟨policy, hjoined⟩
    · obtain ⟨hall, -⟩ := ih hsound hrest fun m hm => by rw [hgone] at hm; cases hm
      refine ⟨hall, fun hops => ?_⟩
      rw [(List.forall_mem_cons.mp hops).1] at hsweep
      cases hsweep
    · obtain ⟨hnow, hnone⟩ := Ledger.forall_foldl_joined (hcombine policy) hbrings hstart
      rw [← hjoined] at hnow hnone
      obtain ⟨hall, hiff⟩ := ih hsound hrest hnow
      refine ⟨hall, fun hops => ?_⟩
      refine (hiff (List.forall_mem_cons.mp hops).2).trans ?_
      rw [hnone, arrivals, List.append_eq_nil_iff, and_assoc]

end Store
end MetricGateway
