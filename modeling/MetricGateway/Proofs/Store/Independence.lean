import Mathlib.Data.Multiset.AddSub
import MetricGateway.Proofs.Rearrangement
import MetricGateway.Proofs.Store.Commit

/-!
# The families of a push are independent

Pushing a family reads and writes only what is stored under its name (`ingestFamily_put`), so the turns of two families
with different names can be exchanged (`turn_comm`). A push with its families in another order, in which families of one
name keep theirs, therefore leads to the same store and refuses for the same reasons (`ingestEach_rearranged`), and a
push can be split into two at the same time (`ingestFamilies_append`).
-/

namespace MetricGateway

/-- Two answers to a push that differ at most in the order of the errors. -/
def AnswersAlike (a b : Except IngestError Nat) : Prop :=
  a = b ∨ ∃ es es', a = .error (.rejected es) ∧ b = .error (.rejected es') ∧ es.Perm es'

namespace Store

/-! ## Families with different names -/

theorem put_comm (s : Store) {name name' : String} (h : name ≠ name') (a b : StoredFamily) :
    (s.put name a).put name' b = (s.put name' b).put name a :=
  congrArg (fun t => { s with families := t }) (s.families.insert_comm h a b)

theorem commit_put (s : Store) {name : String} {g : Family} (h : name ≠ g.name) (a : StoredFamily) :
    (s.put name a).commit g = (·.put name a) <$> s.commit g := by
  unfold commit
  split
  · rfl
  · rw [get?_put, if_neg h]
    cases s.families.get? g.name with
    | none => exact congrArg Except.ok (s.put_comm h a _)
    | some stored =>
      dsimp only
      cases stored.family.merge stored.policy g with
      | error e => rfl
      | ok k => exact congrArg Except.ok (s.put_comm h a _)

/-- Pushing a family does not see what is stored under another name. -/
theorem ingestFamily_put (s : Store) (injected : List Label) {name : String} {f : Family} (h : name ≠ f.name)
    (a : StoredFamily) :
    (s.put name a).ingestFamily injected f = (·.put name a) <$> s.ingestFamily injected f := by
  have hprepare : (s.put name a).prepare injected f = s.prepare injected f := rfl
  unfold ingestFamily
  rw [hprepare]
  cases hg : s.prepare injected f with
  | error e => rfl
  | ok g =>
    obtain ⟨-, -, rfl⟩ := (s.prepare_eq_ok_iff injected f g).mp hg
    exact s.commit_put (g := (f.canonical injected s.options.ignored).sortMetrics) h a

/-- A family that is accepted enters at most something under its name. -/
theorem eq_or_put_of_ingestFamily {s t : Store} {injected : List Label} {f : Family}
    (h : s.ingestFamily injected f = .ok t) : t = s ∨ ∃ stored, t = s.put f.name stored := by
  obtain ⟨g, hg, ⟨-, rfl⟩ | ⟨-, -, rfl⟩ | ⟨-, stored, k, -, -, rfl⟩⟩ := ingestFamily_eq_ok h
  · exact .inl rfl
  all_goals
    obtain ⟨-, -, rfl⟩ := (s.prepare_eq_ok_iff injected f g).mp hg
    exact .inr ⟨_, rfl⟩

/-- A family with another name is pushed in the same way before and after an accepted one. -/
theorem ingestFamily_of_ok {s t : Store} {injected : List Label} {f g : Family} (hne : f.name ≠ g.name)
    (h : s.ingestFamily injected f = .ok t) :
    (∀ e, s.ingestFamily injected g = .error e → t.ingestFamily injected g = .error e) ∧
      ∀ u, s.ingestFamily injected g = .ok u →
        ∃ v, t.ingestFamily injected g = .ok v ∧ u.ingestFamily injected f = .ok v := by
  rcases eq_or_put_of_ingestFamily h with rfl | ⟨a, rfl⟩
  · refine ⟨fun e he => he, fun u hu => ⟨u, hu, ?_⟩⟩
    rcases eq_or_put_of_ingestFamily hu with rfl | ⟨b, rfl⟩
    · exact h
    · rw [ingestFamily_put _ _ (Ne.symm hne), h]
      rfl
  · rw [ingestFamily_put _ _ hne]
    refine ⟨fun e he => by rw [he]; rfl, fun u hu => ⟨u.put f.name a, by rw [hu]; rfl, ?_⟩⟩
    rcases eq_or_put_of_ingestFamily hu with rfl | ⟨b, rfl⟩
    · exact h
    · rw [ingestFamily_put _ _ (Ne.symm hne), h]
      exact congrArg Except.ok (put_comm s hne a b)

/-! ## Turns in another order -/

/-- A turn of a push: the store and the errors so far, in no particular order, become those after one more family. -/
def turn (injected : List Label) (p : Store × Multiset FamilyError) (f : Family) : Store × Multiset FamilyError :=
  match p.1.ingestFamily injected f with
  | .ok t => (t, p.2)
  | .error e => (p.1, e ::ₘ p.2)

theorem turn_of_ok {s t : Store} {injected : List Label} {f : Family} (h : s.ingestFamily injected f = .ok t)
    (es : Multiset FamilyError) : turn injected (s, es) f = (t, es) := by
  simp only [turn, h]

theorem turn_of_error {s : Store} {injected : List Label} {f : Family} {e : FamilyError}
    (h : s.ingestFamily injected f = .error e) (es : Multiset FamilyError) :
    turn injected (s, es) f = (s, e ::ₘ es) := by
  simp only [turn, h]

/-- The turns of families with different names can be exchanged, whatever each of them does. -/
theorem turn_comm (injected : List Label) (p : Store × Multiset FamilyError) (f g : Family) (hne : f.name ≠ g.name) :
    turn injected (turn injected p f) g = turn injected (turn injected p g) f := by
  obtain ⟨s, es⟩ := p
  cases hf : s.ingestFamily injected f with
  | error e =>
    rw [turn_of_error hf]
    cases hg : s.ingestFamily injected g with
    | error e' => rw [turn_of_error hg, turn_of_error hg, turn_of_error hf, Multiset.cons_swap]
    | ok u => rw [turn_of_ok hg, turn_of_ok hg, turn_of_error ((ingestFamily_of_ok (Ne.symm hne) hg).1 e hf)]
  | ok t =>
    obtain ⟨herror, hok⟩ := ingestFamily_of_ok hne hf
    rw [turn_of_ok hf]
    cases hg : s.ingestFamily injected g with
    | error e => rw [turn_of_error (herror e hg), turn_of_error hg, turn_of_ok hf]
    | ok u =>
      obtain ⟨v, htv, huv⟩ := hok u hg
      rw [turn_of_ok htv, turn_of_ok hg, turn_of_ok huv]

theorem foldl_turn (s : Store) (injected : List Label) (fs : List Family) (es : Multiset FamilyError) :
    fs.foldl (turn injected) (s, es) = ((s.ingestEach injected fs).1, es + (s.ingestEach injected fs).2) := by
  induction fs generalizing s es with
  | nil => simp [ingestEach]
  | cons f fs ih =>
    rw [List.foldl_cons, ingestEach]
    cases hf : s.ingestFamily injected f with
    | ok t => rw [turn_of_ok hf, ih]
    | error e =>
      rw [turn_of_error hf, ih]
      simp [← Multiset.cons_coe]

/-- Families in another order, in which families of one name keep theirs, are pushed to the same end. -/
theorem ingestEach_rearranged (s : Store) (injected : List Label) {fs gs : List Family}
    (h : Rearranged Family.name fs gs) :
    (s.ingestEach injected fs).1 = (s.ingestEach injected gs).1 ∧
      (s.ingestEach injected fs).2.Perm (s.ingestEach injected gs).2 := by
  have hfold := h.foldl_eq (turn_comm injected) (s, 0)
  rw [foldl_turn, foldl_turn, Multiset.zero_add, Multiset.zero_add] at hfold
  obtain ⟨hstore, herrors⟩ := Prod.mk.inj hfold
  exact ⟨hstore, Multiset.coe_eq_coe.mp herrors⟩

theorem ingestFamilies_rearranged (s : Store) (now : Instant) (injected : List Label) {fs gs : List Family}
    (h : Rearranged Family.name fs gs) :
    (s.ingestFamilies now injected gs).1 = (s.ingestFamilies now injected fs).1 ∧
      AnswersAlike (s.ingestFamilies now injected fs).2 (s.ingestFamilies now injected gs).2 := by
  obtain ⟨hstore, herrors⟩ := (s.recordPush now injected).ingestEach_rearranged injected h
  refine ⟨hstore.symm, ?_⟩
  unfold ingestFamilies
  dsimp only
  by_cases hnil : ((s.recordPush now injected).ingestEach injected fs).2 = []
  · have hnil' := List.nil_perm.mp (hnil ▸ herrors)
    rw [if_pos hnil, if_pos hnil', h.perm.length_eq]
    exact .inl rfl
  · have hnil' : ¬ ((s.recordPush now injected).ingestEach injected gs).2 = [] := fun hn =>
      hnil (List.perm_nil.mp (hn ▸ herrors))
    rw [if_neg hnil, if_neg hnil']
    exact .inr ⟨_, _, rfl, rfl, herrors⟩

/-! ## Two pushes at one time -/

theorem recordPush_eq_self {s : Store} {now : Instant} {injected : List Label}
    (h : ∀ job, lastValue? s.options.jobLabel injected = some job → s.pushJobs.get? job = some now) :
    s.recordPush now injected = s := by
  unfold recordPush
  split
  · rfl
  next job hjob => exact congrArg (fun jobs => { s with pushJobs := jobs }) (Table.insert_eq_self (h job hjob))

/-- Recording a push again at the same time changes nothing. -/
theorem recordPush_ingestEach (s : Store) (now : Instant) (injected : List Label) (fs : List Family) :
    (((s.recordPush now injected).ingestEach injected fs).1).recordPush now injected =
      ((s.recordPush now injected).ingestEach injected fs).1 := by
  have hoptions := s.options_ingestFamilies now injected fs
  rw [fst_ingestFamilies] at hoptions
  refine recordPush_eq_self fun job hjob => ?_
  rw [hoptions] at hjob
  exact (get?_pushJobs_ingestFamilies s now injected fs job).trans (if_pos hjob)

/-- Families that are pushed in two parts at the same time are pushed at once. -/
theorem ingestFamilies_append (s : Store) (now : Instant) (injected : List Label) (fs gs : List Family) :
    (s.ingestFamilies now injected (fs ++ gs)).1 =
      ((s.ingestFamilies now injected fs).1.ingestFamilies now injected gs).1 := by
  simp only [fst_ingestFamilies]
  rw [recordPush_ingestEach, ingestEach_append]

/-- **The families of a push are independent.** Where they come in another order, but families of one name in the same
one, the push leads to the same store, and its answer is the same up to the order of the errors. Pushing families in two
parts at the same time leads to the same store as pushing them at once. -/
theorem families_are_independent (s : Store) (now : Instant) (injected : List Label) :
    (∀ fs gs, Rearranged Family.name fs gs →
        (s.ingestFamilies now injected gs).1 = (s.ingestFamilies now injected fs).1 ∧
          AnswersAlike (s.ingestFamilies now injected fs).2 (s.ingestFamilies now injected gs).2) ∧
      ∀ fs gs, (s.ingestFamilies now injected (fs ++ gs)).1 =
        ((s.ingestFamilies now injected fs).1.ingestFamilies now injected gs).1 :=
  ⟨fun _ _ h => s.ingestFamilies_rearranged now injected h, s.ingestFamilies_append now injected⟩

/-- The two refused families change places: the error of the gauge now comes first. -/
theorem families_are_independent_mixedFamilies :
    let s := new {}
    let b : List Label := [⟨"job", "b"⟩]
    let hits := { requestsOf ⟨"__path", "/"⟩ with name := "hits" }
    let gs := [requestsOf ⟨"path", "/"⟩, { requestsOf ⟨"path", "/"⟩ with type := .gauge }, hits,
      requestsOf ⟨"path", "/a"⟩]
    Rearranged Family.name mixedFamilies gs ∧ ¬ gs = mixedFamilies ∧
      (s.ingestFamilies 1 b gs).1 = (s.ingestFamilies 1 b mixedFamilies).1 ∧
      AnswersAlike (s.ingestFamilies 1 b mixedFamilies).2 (s.ingestFamilies 1 b gs).2 ∧
      ¬ (s.ingestFamilies 1 b gs).2 = (s.ingestFamilies 1 b mixedFamilies).2 := by
  intro s b hits gs
  have hgs : Rearranged Family.name mixedFamilies gs := by decide +kernel
  obtain ⟨hstore, hanswers⟩ := (families_are_independent s 1 b).1 mixedFamilies gs hgs
  exact ⟨hgs, by decide +kernel, hstore, hanswers, by decide +kernel⟩

end Store
end MetricGateway
