import Mathlib.Data.List.Induction
import MetricGateway.Proofs.Store.Invariant

/-!
# Each family of a push commits on its own

The families of a push take their turns one after the other. In its turn a family is refused or not by the store that
the families before it leave (`refusal?`, `turns`).

- The answer to a push has the errors of its refused families, in the order of their turns (`answer_ingestFamilies`).
  The error of a refused family carries its name (`Sound.family_of_ingestFamily`, `Sound.family_refusals`).
- Pushing only the accepted families leads to the same store, and none of them is refused (`ingestFamilies_accepted`): a
  refused family changes nothing, also if another family of its name was stored in an earlier turn.
- The table of push jobs changes only in the entry of the job of the push (`get?_pushJobs_ingestFamilies`).
-/

namespace MetricGateway

/-! ## The family of an error -/

namespace Family

theorem family_of_checkReserved {f : Family} {e : FamilyError} (h : f.checkReserved = .error e) :
    e.family = f.name := by
  unfold checkReserved at h
  split at h <;> cases h
  rfl

theorem family_of_checkSeriesFrom {family : String} {seen : List (List UInt8)} {ms : List (Metric Binary64)}
    {e : FamilyError} (h : checkSeriesFrom family seen ms = .error e) : e.family = family := by
  rcases exists_of_checkSeriesFrom h with ⟨_, rfl⟩ | ⟨_, _, _, -, rfl, -⟩
  · rfl
  · rfl

theorem family_of_merge {policy : AggregationPolicy} {f g : Family} {e : FamilyError}
    (h : f.merge policy g = .error e) : e.family = f.name := by
  unfold merge at h
  split at h <;> cases h
  rfl

end Family

namespace Store

theorem family_of_prepare {s : Store} {injected : List Label} {f : Family} {e : FamilyError}
    (h : s.prepare injected f = .error e) : e.family = f.name := by
  show e.family = (f.canonical injected s.options.ignored).name
  unfold prepare at h
  dsimp only at h
  rcases Outcome.bind_eq_error_iff.mp h with h | ⟨_, -, h⟩
  · exact Family.family_of_checkReserved h
  · rcases Outcome.bind_eq_error_iff.mp h with h | ⟨_, -, h⟩
    · exact Family.family_of_checkSeriesFrom h
    · cases h

/-- In a sound store the error of a refused family carries the name of the family. -/
theorem Sound.family_of_ingestFamily {s : Store} (hs : s.Sound) {injected : List Label} {f : Family} {e : FamilyError}
    (h : s.ingestFamily injected f = .error e) : e.family = f.name := by
  rcases Outcome.bind_eq_error_iff.mp h with h | ⟨g, hg, h⟩
  · exact family_of_prepare h
  · obtain ⟨-, -, rfl⟩ := (s.prepare_eq_ok_iff injected f g).mp hg
    unfold commit at h
    split at h
    · cases h
    · split at h
      · cases h
      next stored hstored =>
        rcases Outcome.bind_eq_error_iff.mp h with h | ⟨_, -, h⟩
        · -- the error carries the name of the stored family, which is its key
          exact (Family.family_of_merge h).trans (hs _ stored hstored).1
        · cases h

/-! ## Turns -/

/-- Why a family is refused after the given families were pushed, if it is. -/
def refusal? (s : Store) (now : Instant) (injected : List Label) (before : List Family) (f : Family) :
    Option FamilyError :=
  match (s.ingestFamilies now injected before).1.ingestFamily injected f with
  | .ok _ => none
  | .error e => some e

/-- The families of a push, each with the error for which it is refused in its turn, if it is. -/
def turns (s : Store) (now : Instant) (injected : List Label) (fs : List Family) : List (Family × Option FamilyError) :=
  fs.mapIdx fun i f => (f, s.refusal? now injected (fs.take i) f)

/-- The families of a push that are accepted in their turns. -/
def accepted (s : Store) (now : Instant) (injected : List Label) (fs : List Family) : List Family :=
  ((s.turns now injected fs).filter (·.2.isNone)).map Prod.fst

/-- The families of a push that are refused in their turns. -/
def refused (s : Store) (now : Instant) (injected : List Label) (fs : List Family) : List Family :=
  ((s.turns now injected fs).filter (·.2.isSome)).map Prod.fst

/-- The errors of the refused families. -/
def refusals (s : Store) (now : Instant) (injected : List Label) (fs : List Family) : List FamilyError :=
  (s.turns now injected fs).filterMap Prod.snd

section Turns

variable (s : Store) (now : Instant) (injected : List Label) (fs : List Family) (f : Family)

/-- A turn does not depend on the families that follow. -/
theorem turns_concat : s.turns now injected (fs ++ [f]) =
    s.turns now injected fs ++ [(f, s.refusal? now injected fs f)] := by
  have hbefore : ∀ i (h : i < fs.length), (fs[i], s.refusal? now injected ((fs ++ [f]).take i) fs[i]) =
      (fs[i], s.refusal? now injected (fs.take i) fs[i]) := by
    intro i h
    rw [List.take_append_of_le_length h.le]
  rw [turns, List.mapIdx_concat, List.take_left]
  exact congrArg (· ++ _) (List.mapIdx_eq_mapIdx_iff.mpr hbefore)

theorem accepted_concat : s.accepted now injected (fs ++ [f]) =
    s.accepted now injected fs ++ if (s.refusal? now injected fs f).isNone then [f] else [] := by
  rw [accepted, turns_concat, List.filter_append, List.map_append, accepted]
  cases s.refusal? now injected fs f <;> rfl

theorem accepted_sublist : (s.accepted now injected fs).Sublist fs := by
  induction fs using List.reverseRecOn with
  | nil => exact .slnil
  | append_singleton fs f ih =>
    rw [accepted_concat]
    refine ih.append ?_
    split
    · exact .refl [f]
    · exact List.nil_sublist [f]

theorem refused_concat : s.refused now injected (fs ++ [f]) =
    s.refused now injected fs ++ if (s.refusal? now injected fs f).isSome then [f] else [] := by
  rw [refused, turns_concat, List.filter_append, List.map_append, refused]
  cases s.refusal? now injected fs f <;> rfl

theorem refusals_concat : s.refusals now injected (fs ++ [f]) =
    s.refusals now injected fs ++ (s.refusal? now injected fs f).toList := by
  rw [refusals, turns_concat, List.filterMap_append, refusals]
  cases s.refusal? now injected fs f <;> rfl

variable {s now injected fs f}

theorem refusal?_eq_none_iff : s.refusal? now injected fs f = none ↔
    ∃ t, (s.ingestFamilies now injected fs).1.ingestFamily injected f = .ok t := by
  unfold refusal?
  cases (s.ingestFamilies now injected fs).1.ingestFamily injected f <;> simp

theorem refusal?_eq_some_iff {e : FamilyError} : s.refusal? now injected fs f = some e ↔
    (s.ingestFamilies now injected fs).1.ingestFamily injected f = .error e := by
  unfold refusal?
  cases (s.ingestFamilies now injected fs).1.ingestFamily injected f <;> simp

/-! ## Pushing without the refused families -/

variable (s injected fs) in
/-- Families are pushed one after the other. -/
theorem ingestEach_append (gs : List Family) : s.ingestEach injected (fs ++ gs) =
    (((s.ingestEach injected fs).1.ingestEach injected gs).1,
      (s.ingestEach injected fs).2 ++ ((s.ingestEach injected fs).1.ingestEach injected gs).2) := by
  induction fs generalizing s with
  | nil => rfl
  | cons f fs ih =>
    rw [List.cons_append, ingestEach, ingestEach]
    cases s.ingestFamily injected f with
    | ok t => exact ih t
    | error e =>
      dsimp only
      rw [ih s]
      rfl

theorem ingestEach_concat_of_ok {t u : Store} {errors : List FamilyError} (h : s.ingestEach injected fs = (t, errors))
    (hf : t.ingestFamily injected f = .ok u) : s.ingestEach injected (fs ++ [f]) = (u, errors) := by
  simp [ingestEach_append, ingestEach, h, hf]

theorem ingestEach_concat_of_error {t : Store} {errors : List FamilyError} {e : FamilyError}
    (h : s.ingestEach injected fs = (t, errors)) (hf : t.ingestFamily injected f = .error e) :
    s.ingestEach injected (fs ++ [f]) = (t, errors ++ [e]) := by
  simp [ingestEach_append, ingestEach, h, hf]

variable (s now injected fs)

theorem fst_ingestFamilies :
    (s.ingestFamilies now injected fs).1 = ((s.recordPush now injected).ingestEach injected fs).1 := rfl

/-- The errors of a push are those of its refused families, and its accepted families alone lead to the same store
without an error. -/
theorem ingestEach_eq :
    (s.recordPush now injected).ingestEach injected fs =
        ((s.ingestFamilies now injected fs).1, s.refusals now injected fs) ∧
      (s.recordPush now injected).ingestEach injected (s.accepted now injected fs) =
        ((s.ingestFamilies now injected fs).1, []) := by
  -- the turn of the last family comes after those of the others
  induction fs using List.reverseRecOn with
  | nil => exact ⟨rfl, rfl⟩
  | append_singleton fs f ih =>
    obtain ⟨hall, haccepted⟩ := ih
    rw [fst_ingestFamilies, refusals_concat, accepted_concat]
    cases hr : s.refusal? now injected fs f with
    | none =>
      obtain ⟨t, ht⟩ := refusal?_eq_none_iff.mp hr
      rw [ingestEach_concat_of_ok hall ht, Option.toList_none, List.append_nil]
      exact ⟨rfl, ingestEach_concat_of_ok haccepted ht⟩
    | some e =>
      have he := refusal?_eq_some_iff.mp hr
      rw [ingestEach_concat_of_error hall he]
      refine ⟨rfl, ?_⟩
      rw [Option.isNone_some, if_neg Bool.false_ne_true, List.append_nil, haccepted]

/-- The answer to a push. -/
theorem answer_ingestFamilies : (s.ingestFamilies now injected fs).2 =
    if s.refusals now injected fs = [] then .ok fs.length else .error (.rejected (s.refusals now injected fs)) := by
  rw [ingestFamilies, (ingestEach_eq s now injected fs).1]

/-- All families of a push are accepted exactly if none of them is refused. -/
theorem accepted_eq_iff : s.accepted now injected fs = fs ↔ s.refusals now injected fs = [] := by
  induction fs using List.reverseRecOn with
  | nil => exact ⟨fun _ => rfl, fun _ => rfl⟩
  | append_singleton fs f ih =>
    rw [accepted_concat, refusals_concat]
    cases hr : s.refusal? now injected fs f with
    | none =>
      rw [Option.isNone_none, if_pos rfl, Option.toList_none, List.append_nil, List.append_left_inj]
      exact ih
    | some e =>
      have hlength := (accepted_sublist s now injected fs).length_le
      have hne : s.accepted now injected fs ≠ fs ++ [f] := by
        intro h
        rw [h, List.length_append, List.length_singleton] at hlength
        omega
      simp [hne]

/-- **A refused family changes nothing.** The accepted families of a push alone lead to the same store, and all of them
are committed. -/
theorem ingestFamilies_accepted : s.ingestFamilies now injected (s.accepted now injected fs) =
    ((s.ingestFamilies now injected fs).1, .ok (s.accepted now injected fs).length) := by
  rw [ingestFamilies, (ingestEach_eq s now injected fs).2]
  rfl

variable {s} in
/-- In a sound store the errors of a push carry the names of its refused families, in the order of their turns. -/
theorem Sound.family_refusals (hs : s.Sound) :
    (s.refusals now injected fs).map FamilyError.family = (s.refused now injected fs).map Family.name := by
  induction fs using List.reverseRecOn with
  | nil => rfl
  | append_singleton fs f ih =>
    rw [refusals_concat, refused_concat, List.map_append, List.map_append, ih]
    cases hr : s.refusal? now injected fs f with
    | none => rfl
    | some e =>
      have hname := (hs.ingestFamilies now injected fs).family_of_ingestFamily (refusal?_eq_some_iff.mp hr)
      simp [hname]

end Turns

/-! ## The push job -/

theorem pushJobs_ingestFamily {s t : Store} {injected : List Label} {f : Family}
    (h : s.ingestFamily injected f = .ok t) : t.pushJobs = s.pushJobs := by
  obtain ⟨g, -, ⟨-, rfl⟩ | ⟨-, -, rfl⟩ | ⟨-, stored, k, -, -, rfl⟩⟩ := ingestFamily_eq_ok h <;> rfl

theorem pushJobs_ingestEach (s : Store) (injected : List Label) (fs : List Family) :
    (s.ingestEach injected fs).1.pushJobs = s.pushJobs :=
  ingestEach_invariant (I := fun t => t.pushJobs = s.pushJobs)
    (fun _ _ _ _ h hs => (pushJobs_ingestFamily h).trans hs) rfl

/-- A push enters its time under its job and changes no other entry of the table. -/
theorem get?_pushJobs_ingestFamilies (s : Store) (now : Instant) (injected : List Label) (fs : List Family)
    (job : String) : (s.ingestFamilies now injected fs).1.pushJobs.get? job =
      if lastValue? s.options.jobLabel injected = some job then some now else s.pushJobs.get? job := by
  rw [fst_ingestFamilies, pushJobs_ingestEach, recordPush]
  cases lastValue? s.options.jobLabel injected with
  | none => rfl
  | some last => simp

/-- **Each family of a push commits on its own.** In every store that a run reaches, a payload that cannot be read
changes nothing. Pushing families leads to the same store as pushing only those that are accepted in their turns, and
then all of them are committed. The answer is the number of families if none is refused, and otherwise the errors of the
refused ones, each with the name of its family, in the order of their turns. Whatever the answer, the table of push jobs
changes only in the entry of the last job that the labels of the push name. -/
theorem families_commit_on_their_own (o : StoreOptions) (ops : List Operation) (now : Instant) (injected : List Label) :
    let s := (new o).run ops
    (∀ format payload fault, ExpositionFormat.read format payload = .error fault →
        s.ingest now injected format payload = (s, .error (.parse fault))) ∧
      (∀ format payload fs, ExpositionFormat.read format payload = .ok fs →
        s.ingest now injected format payload = s.ingestFamilies now injected fs) ∧
      ∀ fs,
        let t := (s.ingestFamilies now injected fs).1
        s.ingestFamilies now injected (s.accepted now injected fs) =
            (t, .ok (s.accepted now injected fs).length) ∧
          (s.ingestFamilies now injected fs).2 =
            (if s.refusals now injected fs = [] then .ok fs.length
              else .error (.rejected (s.refusals now injected fs))) ∧
          (s.refusals now injected fs).map FamilyError.family = (s.refused now injected fs).map Family.name ∧
          ∀ job, t.pushJobs.get? job =
            if lastValue? o.jobLabel injected = some job then some now else s.pushJobs.get? job := by
  intro s
  have hs : s.Sound := sound_run o ops
  have ho : s.options = o := run_options (new o) ops
  refine ⟨?_, ?_, ?_⟩
  · intro format payload fault h
    rw [ingest, h]
  · intro format payload fs h
    rw [ingest, h]
  · intro fs t
    refine ⟨ingestFamilies_accepted s now injected fs, answer_ingestFamilies s now injected fs,
      hs.family_refusals now injected fs, fun job => ?_⟩
    rw [← ho]
    exact get?_pushJobs_ingestFamilies s now injected fs job

/-- Families of which two are refused: one for a label name, one because an earlier family of its name is stored. -/
def mixedFamilies : List Family := [
  { requestsOf ⟨"__path", "/"⟩ with name := "hits" }, requestsOf ⟨"path", "/"⟩,
  { requestsOf ⟨"path", "/"⟩ with type := .gauge }, requestsOf ⟨"path", "/a"⟩]

theorem families_commit_on_their_own_mixedFamilies :
    let s := new {}
    let b : List Label := [⟨"job", "b"⟩]
    let accepted := [requestsOf ⟨"path", "/"⟩, requestsOf ⟨"path", "/a"⟩]
    let errors := [.invalidLabel "hits" ⟨"__path", .reservedLabelName⟩, .typeMismatch "requests" .counter .gauge]
    s.ingestFamilies 1 b accepted = ((s.ingestFamilies 1 b mixedFamilies).1, .ok 2) ∧
      (s.ingestFamilies 1 b mixedFamilies).2 = .error (.rejected errors) ∧
      (s.ingestFamilies 1 b mixedFamilies).1.pushJobs.get? "b" = some 1 ∧
      s.ingest 1 b .text (Utf8.bytesOf "x") = (s, .error (.parse (.line 1 (.missingNumber "x")))) := by
  intro s b accepted errors
  obtain ⟨hfault, -, hfamilies⟩ := families_commit_on_their_own {} [] 1 b
  obtain ⟨hstore, hanswer, -, hjobs⟩ := hfamilies mixedFamilies
  change s.ingestFamilies 1 b (s.accepted 1 b mixedFamilies) = (_, .ok (s.accepted 1 b mixedFamilies).length) at hstore
  have haccepted : s.accepted 1 b mixedFamilies = accepted := by decide +kernel
  have hrefusals : s.refusals 1 b mixedFamilies = errors := by decide +kernel
  rw [haccepted] at hstore
  refine ⟨hstore, ?_, hjobs "b", hfault .text (Utf8.bytesOf "x") _ (by decide +kernel)⟩
  rw [← hrefusals]
  exact hanswer

end Store
end MetricGateway
