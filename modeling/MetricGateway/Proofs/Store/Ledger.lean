import MetricGateway.Proofs.Sorted.Ascending
import MetricGateway.Proofs.Store.Run

/-!
# The ledger of series

A ledger is what a store stands for: it has a place for every series of every family, a heading for every family that
was stored, and the time of the last push of every job. Nothing in it is sorted or merged.

- A family is accepted or refused by its `verdict`. An accepted family adds each of its metrics, under canonical labels,
  to the place of that series (`add`): an empty place takes the metric, and two metrics of one series are combined,
  which may leave the place empty (`joined`). A refused family changes nothing.
- The first accepted family of a name writes the heading, and later ones leave it.
- A sweep that finds a stale job empties the places of the series whose job label names a stale job, and strikes the
  headings of families without a series (`dropStale`).

`series_foldl_add` says what is in every place after the metrics of a family have been added.
-/

namespace MetricGateway

/-- What is known of a stored family besides its series. -/
structure Heading where
  help : Option String
  type : MetricType
  policy : AggregationPolicy

/-- Series by family and labels, headings by family, and last pushes by job. -/
structure Ledger where
  series : String → LabelSet → Option (Metric Binary64)
  heading : String → Option Heading
  lastPush : String → Option Instant

namespace Ledger

/-- The ledger of nothing. -/
def empty : Ledger := ⟨fun _ _ => none, fun _ => none, fun _ => none⟩

/-! ## Pushes -/

/-- What is in the place of a series after a metric of the series came in. -/
def joined (policy : AggregationPolicy) (present : Option (Metric Binary64)) (m : Metric Binary64) :
    Option (Metric Binary64) :=
  match present with
  | none => some m
  | some a => a.combine policy m

/-- Adds a metric of a family to the place of its series. -/
def add (name : String) (policy : AggregationPolicy) (l : Ledger) (m : Metric Binary64) : Ledger :=
  { l with series := fun n labels =>
      if n = name ∧ labels = m.labels then joined policy (l.series n labels) m else l.series n labels }

/-- The heading under which a family is merged: that of its name, or else the one that it writes itself. -/
def headingFor (o : StoreOptions) (l : Ledger) (f : Family) : Heading :=
  (l.heading f.name).getD ⟨f.help, f.type, ⟨.ofHelp f.help o.gaugeRule, o.untypedRule⟩⟩

/-- Adds the metrics of an accepted family. -/
def addFamily (o : StoreOptions) (l : Ledger) (f : Family) : Ledger :=
  if f.metrics = [] then l
  else
    f.metrics.foldl (add f.name (l.headingFor o f).policy)
      { l with heading := fun n => if n = f.name then some (l.headingFor o f) else l.heading n }

/-- Whether a family is accepted: its names are free and can be written, its series differ, and its type is that of the
heading. -/
def verdict (o : StoreOptions) (l : Ledger) (injected : List Label) (f : Family) : Except FamilyError Unit := do
  let f := f.canonical injected o.ignored
  f.checkReserved
  f.checkSeries
  match l.heading f.name with
  | none => return
  | some h => if f.metrics ≠ [] ∧ h.type ≠ f.type then throw (.typeMismatch f.name h.type f.type) else return

/-- Pushes a family. -/
def pushFamily (o : StoreOptions) (injected : List Label) (l : Ledger) (f : Family) : Ledger :=
  match l.verdict o injected f with
  | .error _ => l
  | .ok _ => l.addFamily o (f.canonical injected o.ignored)

/-- Notes the push of a job. -/
def note (o : StoreOptions) (l : Ledger) (now : Instant) (injected : List Label) : Ledger :=
  match lastValue? o.jobLabel injected with
  | none => l
  | some job => { l with lastPush := fun j => if j = job then some now else l.lastPush j }

/-- Pushes families one after the other. -/
def pushFamilies (o : StoreOptions) (l : Ledger) (now : Instant) (injected : List Label) (fs : List Family) : Ledger :=
  fs.foldl (pushFamily o injected) (l.note o now injected)

/-! ## Sweeps -/

/-- The last push of a job lies before the cutoff. -/
def Stale (l : Ledger) (cutoff : Instant) (job : String) : Prop := ∃ t, l.lastPush job = some t ∧ t < cutoff

open Classical in
/-- The series that are left without those of stale jobs. -/
noncomputable def freshSeries (o : StoreOptions) (l : Ledger) (cutoff : Instant) (name : String) (labels : LabelSet) :
    Option (Metric Binary64) :=
  if ∃ job, labels.get? o.jobLabel = some job ∧ l.Stale cutoff job then none else l.series name labels

open Classical in
/-- The ledger without its stale jobs and all that belongs to them. -/
noncomputable def dropStale (o : StoreOptions) (l : Ledger) (cutoff : Instant) : Ledger where
  series := l.freshSeries o cutoff
  heading name := if ∃ labels, l.freshSeries o cutoff name labels ≠ none then l.heading name else none
  lastPush job := if l.Stale cutoff job then none else l.lastPush job

open Classical in
/-- Sweeps, if there is a time-to-live, the cutoff is a time, and some job is stale. -/
noncomputable def sweep (o : StoreOptions) (l : Ledger) (now : Instant) : Ledger :=
  match o.ttl with
  | none => l
  | some ttl =>
    if calendarStart ≤ now - ttl ∧ ∃ job, l.Stale (now - ttl) job then l.dropStale o (now - ttl) else l

/-- The ledger after an operation. -/
noncomputable def perform (o : StoreOptions) (l : Ledger) : Operation → Ledger
  | .push now injected format payload =>
    match format.read payload with
    | .error _ => l
    | .ok fs => l.pushFamilies o now injected fs
  | .pushFamilies now injected fs => l.pushFamilies o now injected fs
  | .sweep now => l.sweep o now

/-- The ledger after operations, one after the other. -/
noncomputable def run (o : StoreOptions) (l : Ledger) (ops : List Operation) : Ledger := ops.foldl (perform o) l

/-! ## What adding metrics does -/

section Adding

variable {name : String} {policy : AggregationPolicy} (l : Ledger) (ms : List (Metric Binary64))

theorem heading_foldl_add : (ms.foldl (add name policy) l).heading = l.heading := by
  induction ms generalizing l with
  | nil => rfl
  | cons m ms ih => exact ih (l.add name policy m)

theorem lastPush_foldl_add : (ms.foldl (add name policy) l).lastPush = l.lastPush := by
  induction ms generalizing l with
  | nil => rfl
  | cons m ms ih => exact ih (l.add name policy m)

theorem series_foldl_add_of_ne {n : String} (hn : n ≠ name) : (ms.foldl (add name policy) l).series n = l.series n := by
  induction ms generalizing l with
  | nil => rfl
  | cons m ms ih =>
    rw [List.foldl_cons, ih]
    funext labels
    simp [add, hn]

/-- Metrics of pairwise different series are added each to its own place. -/
theorem series_foldl_add (hms : ms.Pairwise fun a b => a.labels ≠ b.labels) (labels : LabelSet) :
    (ms.foldl (add name policy) l).series name labels =
      Sorted.unite (Metric.combine policy) (l.series name labels) (Sorted.lookup? Metric.labels labels ms) := by
  induction ms generalizing l with
  | nil => cases h : l.series name labels <;> simp [h, Sorted.unite]
  | cons m ms ih =>
    obtain ⟨hm, hms⟩ := List.pairwise_cons.mp hms
    rw [List.foldl_cons, ih _ hms, Sorted.lookup?_cons]
    by_cases hl : m.labels = labels
    · -- no later metric belongs to the series of this one
      subst hl
      have hnone : Sorted.lookup? Metric.labels m.labels ms = none :=
        Sorted.lookup?_eq_none_iff.mpr fun x hx => (hm x hx).symm
      rw [hnone, if_pos rfl]
      cases h : l.series name m.labels with
      | none => simp [add, joined, h, Sorted.unite]
      | some a => cases hc : a.combine policy m <;> simp [add, joined, h, hc, Sorted.unite]
    · rw [if_neg hl]
      have hplace : (l.add name policy m).series name labels = l.series name labels :=
        if_neg fun h => hl h.2.symm
      rw [hplace]

/-- The place of a series stays if none of the metrics belongs to it. -/
theorem series_foldl_add_of_forall_ne {labels : LabelSet} (h : ∀ m ∈ ms, m.labels ≠ labels) (n : String) :
    (ms.foldl (add name policy) l).series n labels = l.series n labels := by
  induction ms generalizing l with
  | nil => rfl
  | cons m ms ih =>
    obtain ⟨hm, hms⟩ := List.forall_mem_cons.mp h
    rw [List.foldl_cons, ih _ hms]
    exact if_neg fun hl => hm hl.2.symm

end Adding

/-! ## What a push does not touch -/

/-- A series is pushed by families if it is that of one of their metrics under canonical labels. -/
def Pushes (o : StoreOptions) (injected : List Label) (fs : List Family) (name : String) (labels : LabelSet) : Prop :=
  ∃ f ∈ fs, f.name = name ∧ ∃ m ∈ f.metrics, m.labels.canonical injected o.ignored = labels

section Frame

variable {o : StoreOptions} {injected : List Label} {name : String} {labels : LabelSet}

theorem series_addFamily_of_ne (l : Ledger) {f : Family} (h : f.name = name → ∀ m ∈ f.metrics, m.labels ≠ labels) :
    (l.addFamily o f).series name labels = l.series name labels := by
  unfold addFamily
  split
  · rfl
  · by_cases hn : f.name = name
    · rw [series_foldl_add_of_forall_ne _ _ (h hn)]
    · rw [series_foldl_add_of_ne _ _ (Ne.symm hn)]

theorem series_pushFamily_of_ne (l : Ledger) {f : Family} (h : ¬ Pushes o injected [f] name labels) :
    (l.pushFamily o injected f).series name labels = l.series name labels := by
  unfold pushFamily
  split
  · rfl
  · refine series_addFamily_of_ne l fun hn m hm he => ?_
    obtain ⟨m₀, hm₀, rfl⟩ := List.mem_map.mp hm
    exact h ⟨f, List.mem_singleton_self f, hn, m₀, hm₀, he⟩

/-- Families leave the series that they do not push. -/
theorem series_pushFamilies_of_ne (l : Ledger) (now : Instant) {fs : List Family}
    (h : ¬ Pushes o injected fs name labels) :
    (l.pushFamilies o now injected fs).series name labels = l.series name labels := by
  have hnote : (l.note o now injected).series = l.series := by
    unfold note
    split <;> rfl
  unfold pushFamilies
  rw [← hnote]
  generalize l.note o now injected = l
  induction fs generalizing l with
  | nil => rfl
  | cons f fs ih =>
    rw [List.foldl_cons, ih fun ⟨g, hg, hrest⟩ => h ⟨g, List.mem_cons_of_mem _ hg, hrest⟩]
    refine series_pushFamily_of_ne l fun ⟨g, hg, hrest⟩ => h ⟨g, ?_, hrest⟩
    rw [List.mem_singleton.mp hg]
    exact List.mem_cons_self

/-- A family is added under the heading that is there. -/
theorem heading_addFamily {l : Ledger} {head : Heading} (h : l.heading name = some head) (f : Family) :
    (l.addFamily o f).heading name = some head := by
  unfold addFamily
  split
  · exact h
  · rw [heading_foldl_add]
    by_cases hn : name = f.name
    · simp [headingFor, ← hn, h]
    · simpa [hn] using h

/-- Families leave the headings that are there. -/
theorem heading_pushFamilies {l : Ledger} {head : Heading} (h : l.heading name = some head) (now : Instant)
    (fs : List Family) : (l.pushFamilies o now injected fs).heading name = some head := by
  have hnote : (l.note o now injected).heading = l.heading := by
    unfold note
    split <;> rfl
  unfold pushFamilies
  rw [← hnote] at h
  generalize l.note o now injected = l at h ⊢
  induction fs generalizing l with
  | nil => exact h
  | cons f fs ih =>
    apply ih
    unfold pushFamily
    split
    · exact h
    · exact heading_addFamily h _

end Frame

end Ledger
end MetricGateway
