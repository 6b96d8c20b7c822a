import Mathlib.Logic.Relation
import MetricGateway.Proofs.Family.WellFormed
import MetricGateway.Store.Sweep

/-!
# Runs of a store

A store is driven by pushes of payloads, pushes of families and sweeps (`Operation`). Everything that an operation does
is made of four changes: a push job is noted, a prepared family is stored, a prepared family is merged into the stored
one, and the stale jobs are dropped (`Change`). The lemmas `ingestFamily_eq_ok`, `changes_perform` and `changes_run` say
so for one family, one operation and a whole run, so what every change keeps holds of every store that a run reaches
(`run_induction`).
-/

namespace MetricGateway

/-- What is asked of a store. -/
inductive Operation
  /-- Pushing a payload, with the labels of the push. -/
  | push (now : Instant) (injected : List Label) (format : ExpositionFormat) (payload : List UInt8)
  /-- Pushing families, with the labels of the push. -/
  | pushFamilies (now : Instant) (injected : List Label) (fs : List Family)
  | sweep (now : Instant)

/-- The families that an operation pushes: those of the payload, or those that are given. -/
def Operation.families : Operation → List Family
  | push _ _ format payload => match format.read payload with
    | .ok fs => fs
    | .error _ => []
  | pushFamilies _ _ fs => fs
  | sweep _ => []

theorem Operation.mem_families_push (now : Instant) (injected : List Label) (format : ExpositionFormat)
    (payload : List UInt8) (f : Family) :
    f ∈ (push now injected format payload).families ↔ ∃ fs, format.read payload = .ok fs ∧ f ∈ fs := by
  simp only [families]
  cases format.read payload <;> simp

/-- The families that are handed to an operation without a reader. -/
def Operation.given : Operation → List Family
  | pushFamilies _ _ fs => fs
  | _ => []

/-- Where no families are handed over as such, those that are pushed were read from a payload. -/
theorem Operation.exists_read_of_given_eq_nil {op : Operation} (hop : op.given = []) {f : Family}
    (hf : f ∈ op.families) : ∃ format payload fs, ExpositionFormat.read format payload = .ok fs ∧ f ∈ fs := by
  cases op with
  | push now injected format payload =>
    obtain ⟨fs, hr, hf⟩ := (mem_families_push ..).mp hf
    exact ⟨format, payload, fs, hr, hf⟩
  | pushFamilies now injected fs =>
    have hnone : fs = [] := hop
    rw [hnone] at hf
    cases hf
  | sweep now => cases hf

namespace Store

/-- A store without families. -/
def new (o : StoreOptions) : Store := { options := o }

/-- The store after an operation. A sweep at a time that has no cutoff leaves it as it is. -/
def perform (s : Store) : Operation → Store
  | .push now injected format payload => (s.ingest now injected format payload).1
  | .pushFamilies now injected fs => (s.ingestFamilies now injected fs).1
  | .sweep now => ((s.sweep now).map Prod.fst).getD s

/-- The store after operations, one after the other. -/
def run (s : Store) (ops : List Operation) : Store := ops.foldl perform s

/-! ## Changes -/

/-- Enters a family under its name. -/
def put (s : Store) (name : String) (stored : StoredFamily) : Store :=
  { s with families := s.families.insert name stored }

@[simp] theorem get?_put (s : Store) (name name' : String) (stored : StoredFamily) :
    (s.put name stored).families.get? name' = if name = name' then some stored else s.families.get? name' :=
  Table.get?_insert _ _ _ _

/-- One change of a store, in which only families with a property are pushed. -/
inductive Change (P : Family → Prop) : Store → Store → Prop
  | note (s : Store) (now : Instant) (job : String) : Change P s { s with pushJobs := s.pushJobs.insert job now }
  | install {s : Store} {injected : List Label} {f g : Family} (hf : P f) (hg : s.prepare injected f = .ok g)
      (hne : g.metrics ≠ []) (hs : s.families.get? g.name = none) : Change P s (s.put g.name ⟨g, s.policyFor g⟩)
  | merge {s : Store} {injected : List Label} {f g k : Family} {stored : StoredFamily} (hf : P f)
      (hg : s.prepare injected f = .ok g) (hne : g.metrics ≠ []) (hs : s.families.get? g.name = some stored)
      (hk : stored.family.merge stored.policy g = .ok k) : Change P s (s.put g.name { stored with family := k })
  | drop (s : Store) (cutoff : Instant) : Change P s (s.dropStale cutoff)

/-- What becomes of a family that a store accepts: it has no metrics, or it is stored, or it is merged. -/
theorem ingestFamily_eq_ok {s t : Store} {injected : List Label} {f : Family} (h : s.ingestFamily injected f = .ok t) :
    ∃ g, s.prepare injected f = .ok g ∧
      ((g.metrics = [] ∧ t = s) ∨
        (g.metrics ≠ [] ∧ s.families.get? g.name = none ∧ t = s.put g.name ⟨g, s.policyFor g⟩) ∨
        (g.metrics ≠ [] ∧ ∃ stored k, s.families.get? g.name = some stored ∧
          stored.family.merge stored.policy g = .ok k ∧ t = s.put g.name { stored with family := k })) := by
  obtain ⟨g, hg, h⟩ := Outcome.bind_eq_ok_iff.mp h
  refine ⟨g, hg, ?_⟩
  unfold commit at h
  split at h
  next hm =>
    cases h
    exact .inl ⟨List.isEmpty_iff.mp hm, rfl⟩
  next hm =>
    have hne : g.metrics ≠ [] := fun he => hm (List.isEmpty_iff.mpr he)
    split at h
    next hs =>
      cases h
      exact .inr (.inl ⟨hne, hs, rfl⟩)
    next stored hs =>
      obtain ⟨k, hk, h⟩ := Outcome.bind_eq_ok_iff.mp h
      cases h
      exact .inr (.inr ⟨hne, stored, k, hs, hk, rfl⟩)

/-- A sweep leaves the store as it is or drops its stale jobs. -/
theorem sweep_eq_some {s : Store} {now : Instant} {t : Store × SweepStats} (h : s.sweep now = some t) :
    t.1 = s ∨ ∃ cutoff, t.1 = s.dropStale cutoff := by
  unfold sweep at h
  split at h
  next =>
    cases h
    exact .inl rfl
  next ttl _ =>
    split at h
    · cases h
    · cases h
      unfold evict
      split
      · exact .inr ⟨_, rfl⟩
      · exact .inl rfl

section Runs

variable {P : Family → Prop}

theorem changes_ingestFamily {s t : Store} {injected : List Label} {f : Family} (hf : P f)
    (h : s.ingestFamily injected f = .ok t) : Relation.ReflTransGen (Change P) s t := by
  obtain ⟨g, hg, ⟨-, rfl⟩ | ⟨hne, hs, rfl⟩ | ⟨hne, stored, k, hs, hk, rfl⟩⟩ := ingestFamily_eq_ok h
  · exact .refl
  · exact .single (.install hf hg hne hs)
  · exact .single (.merge hf hg hne hs hk)

/-- What every accepted family keeps, pushing families keeps. -/
theorem ingestEach_invariant {I : Store → Prop} {injected : List Label} {fs : List Family}
    (hI : ∀ s t, ∀ f ∈ fs, s.ingestFamily injected f = .ok t → I s → I t) {s : Store} (hs : I s) :
    I (s.ingestEach injected fs).1 := by
  induction fs generalizing s with
  | nil => exact hs
  | cons f fs ih =>
    have hrest := fun s t f hf => hI s t f (List.mem_cons_of_mem _ hf)
    unfold ingestEach
    split
    next t ht => exact ih hrest (hI s t f List.mem_cons_self ht hs)
    next => exact ih hrest hs

theorem changes_ingestEach (s : Store) (injected : List Label) (fs : List Family) (hfs : ∀ f ∈ fs, P f) :
    Relation.ReflTransGen (Change P) s (s.ingestEach injected fs).1 :=
  ingestEach_invariant (fun _ _ f hf h hs => hs.trans (changes_ingestFamily (hfs f hf) h)) .refl

theorem changes_recordPush (s : Store) (now : Instant) (injected : List Label) :
    Relation.ReflTransGen (Change P) s (s.recordPush now injected) := by
  unfold recordPush
  split
  · exact .refl
  · exact .single (.note s now _)

theorem changes_ingestFamilies (s : Store) (now : Instant) (injected : List Label) (fs : List Family)
    (hfs : ∀ f ∈ fs, P f) : Relation.ReflTransGen (Change P) s (s.ingestFamilies now injected fs).1 :=
  (changes_recordPush s now injected).trans (changes_ingestEach (s.recordPush now injected) injected fs hfs)

theorem changes_perform (s : Store) (op : Operation) (hop : ∀ f ∈ op.families, P f) :
    Relation.ReflTransGen (Change P) s (s.perform op) := by
  cases op with
  | push now injected format payload =>
    show Relation.ReflTransGen (Change P) s (s.ingest now injected format payload).1
    unfold ingest
    cases hr : format.read payload with
    | error fault => exact .refl
    | ok fs =>
      refine changes_ingestFamilies s now injected fs fun f hf => hop f ?_
      exact (Operation.mem_families_push ..).mpr ⟨fs, hr, hf⟩
  | pushFamilies now injected fs => exact changes_ingestFamilies s now injected fs hop
  | sweep now =>
    show Relation.ReflTransGen (Change P) s (((s.sweep now).map Prod.fst).getD s)
    cases ht : s.sweep now with
    | none => exact .refl
    | some t =>
      show Relation.ReflTransGen (Change P) s t.1
      rcases sweep_eq_some ht with h | ⟨cutoff, h⟩
      · rw [h]
      · rw [h]
        exact .single (.drop s cutoff)

theorem changes_run (s : Store) (ops : List Operation) (hops : ∀ op ∈ ops, ∀ f ∈ op.families, P f) :
    Relation.ReflTransGen (Change P) s (s.run ops) := by
  induction ops generalizing s with
  | nil => exact .refl
  | cons op ops ih =>
    have hrest := List.forall_mem_cons.mp hops
    exact (changes_perform s op hrest.1).trans (ih (s.perform op) hrest.2)

theorem changes_induction {I : Store → Prop} (hI : ∀ s t, Change P s t → I s → I t) {s t : Store}
    (h : Relation.ReflTransGen (Change P) s t) (hs : I s) : I t := by
  induction h with
  | refl => exact hs
  | tail _ hc ih => exact hI _ _ hc ih

/-- What every change of a store keeps, every run keeps. -/
theorem run_induction {I : Store → Prop} (hI : ∀ s t, Change P s t → I s → I t) {s : Store} (hs : I s)
    (ops : List Operation) (hops : ∀ op ∈ ops, ∀ f ∈ op.families, P f) : I (s.run ops) :=
  changes_induction hI (changes_run s ops hops) hs

theorem Change.options_eq {s t : Store} (h : Change P s t) : t.options = s.options := by
  cases h <;> rfl

theorem options_of_changes {s t : Store} (h : Relation.ReflTransGen (Change P) s t) : t.options = s.options :=
  changes_induction (I := fun u => u.options = s.options) (fun _ _ hc ih => hc.options_eq.trans ih) h rfl

end Runs

theorem run_options (s : Store) (ops : List Operation) : (s.run ops).options = s.options :=
  options_of_changes (changes_run (P := fun _ => True) s ops fun _ _ _ _ => trivial)

theorem options_ingestFamilies (s : Store) (now : Instant) (injected : List Label) (fs : List Family) :
    (s.ingestFamilies now injected fs).1.options = s.options :=
  options_of_changes (changes_ingestFamilies (P := fun _ => True) s now injected fs fun _ _ => trivial)

theorem families_recordPush (s : Store) (now : Instant) (injected : List Label) :
    (s.recordPush now injected).families = s.families := by
  unfold recordPush
  split <;> rfl

end Store
end MetricGateway
