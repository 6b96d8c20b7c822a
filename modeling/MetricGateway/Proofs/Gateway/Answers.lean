import MetricGateway.Proofs.Gateway.Authorization
import MetricGateway.Proofs.Gateway.PathLabels
import MetricGateway.Proofs.Gateway.Push

/-!
# What a push is answered

The checks in front of a payload read nothing but the request and the options, so they are stated without the handler:
`Admits` is the check of the credentials, `Malformed` the others. A push that fails one of them leaves the gateway as it
is, and one that passes is answered by what becomes of its families (`answers_push`).

The labels of a push are those of its path behind `/metrics/`, which is decoded, freed of the slashes around it and
split into segments (`Request.labels`, `pathLabels?_eq`).
-/

namespace MetricGateway

/-! ## The labels of a push -/

namespace Request

/-- The part of the path behind `/metrics/`. -/
def labelPath (r : Request) : List Char := r.path.drop "/metrics/".length

/-- The label path, decoded and without the slashes around it. A path that is not UTF-8 counts as empty. -/
def labelText (r : Request) : List Char := Text.trimEnds (· == '/') ((decodedPath? r.labelPath).getD [])

/-- The segments of the label path, of which an empty path has none. -/
def segments (r : Request) : List (List Char) :=
  if r.labelText = [] then [] else r.labelText.splitOn '/'

/-- The labels that the segments name. -/
def labels (r : Request) : List Label := labelsOf r.segments

theorem pathLabels?_eq (r : Request) : pathLabels? ((decodedPath? r.labelPath).getD []) =
    if r.segments.length % 2 = 0 then some r.labels else none := by
  rw [pathLabels?_eq_pairUp, strippedPath, ← labelText, labels, segments]
  split
  next => rfl
  next => rw [pairUp_eq]

end Request

namespace Gateway

theorem apiPath?_eq {r : Request} (h : IsPushPath r.path) : apiPath? r.path = some r.labelPath := by
  rw [Request.labelPath]
  rcases h with h | ⟨rest, hrest, h⟩
  · rw [h]
    decide
  · rw [h, apiPath?_append hrest, List.drop_left']
    rfl

/-- The job of a push: the value of the last label in the path that has the name of jobs. -/
def job? (g : Gateway) (r : Request) : Option String := lastValue? g.store.options.jobLabel r.labels

/-! ## The checks -/

/-- What is wrong with a push before the store takes its families. -/
inductive Malformed (g : Gateway) (r : Request) : Prop
  /-- A name in the path without a value. -/
  | oddPath (hodd : r.segments.length % 2 = 1)
  /-- No job although metrics expire. -/
  | missingJob (httl : g.store.options.ttl ≠ none) (hjob : g.job? r = none)
  | unreadable (fault : ParseFault) (hread : payload r = .error fault)

section Checks

variable {g : Gateway} {r : Request} {labels : List Label}

theorem Passes.labels_eq (h : g.Passes r.labelPath r labels) : r.segments.length % 2 = 0 ∧ r.labels = labels := by
  have hlabelled := h.labelled
  rw [r.pathLabels?_eq] at hlabelled
  split at hlabelled
  next heven =>
    cases hlabelled
    exact ⟨heven, rfl⟩
  next => cases hlabelled

/-- A push that passes the checks and whose payload is read has nothing wrong with it. -/
theorem Passes.not_malformed (h : g.Passes r.labelPath r labels) {fs : List Family} (hread : payload r = .ok fs) :
    ¬ g.Malformed r := by
  obtain ⟨heven, hlabels⟩ := h.labels_eq
  intro hmalformed
  cases hmalformed with
  | oddPath hodd => omega
  | missingJob httl hjob =>
    rw [job?, hlabels] at hjob
    exact h.named (Option.isSome_iff_ne_none.mpr httl) hjob
  | unreadable fault hfault => cases hread.symm.trans hfault

theorem malformed_of_pathLabels? (h : pathLabels? ((decodedPath? r.labelPath).getD []) = none) : g.Malformed r := by
  rw [r.pathLabels?_eq] at h
  split at h
  next => cases h
  next hodd => exact .oddPath (by omega)

theorem malformed_of_job (hpath : pathLabels? ((decodedPath? r.labelPath).getD []) = some labels)
    (httl : g.store.options.ttl.isSome) (hjob : lastValue? g.store.options.jobLabel labels = none) : g.Malformed r := by
  rw [r.pathLabels?_eq] at hpath
  split at hpath
  next =>
    cases hpath
    exact .missingJob (Option.isSome_iff_ne_none.mp httl) hjob
  next => cases hpath

end Checks

/-! ## The answers -/

section Answers

variable {g : Gateway} (now : Instant) {r : Request}

/-- The answer is `202` if the push is not refused, and otherwise says why it is. -/
theorem api_of_push (hr : IsPush r) : g.api now r = ((g.push now r.labelPath r).1,
    (g.push now r.labelPath r).1.withCors r ((g.push now r.labelPath r).2.elim .accepted .refused)) := by
  rw [api_of_isPush hr.1 (apiPath?_eq hr.2), pushAnswer]
  cases h : g.push now r.labelPath r with
  | mk t refusal => cases refusal <;> rfl

theorem body_withCors (g : Gateway) (r : Request) (a : Answer) : (g.withCors r a).body = a.body := by
  unfold withCors
  dsimp only
  split <;> split <;> rfl

theorem api_of_not_admits (hr : IsPush r) (h : ¬ g.Admits r) : (g.api now r).1 = g ∧ (g.api now r).2.status = 401 :=
  api_of_not_authorizes hr (Bool.eq_false_iff.mpr fun hauth => h ((g.authorizes_iff r).mp hauth))

/-- A push that may be made but is malformed is answered 400 and leaves the gateway as it is. -/
theorem api_of_malformed (hr : IsPush r) (hadmits : g.Admits r) (h : g.Malformed r) :
    (g.api now r).1 = g ∧ (g.api now r).2.status = 400 := by
  rw [api_of_push now hr, status_withCors]
  have houtcome := g.push_outcome now r.labelPath r
  generalize g.push now r.labelPath r = p at houtcome
  cases houtcome with
  | unauthorized hauth => exact absurd ((g.authorizes_iff r).mpr hadmits) (by simp [hauth])
  | oddPath => exact ⟨rfl, rfl⟩
  | missingJob => exact ⟨rfl, rfl⟩
  | unreadable => exact ⟨rfl, rfl⟩
  | rejected hpasses hread => exact absurd h (hpasses.not_malformed hread)
  | accepted hpasses hread => exact absurd h (hpasses.not_malformed hread)

/-- The number of pushes that were accepted for a job. -/
def pushCount (g : Gateway) (job : String) : Nat := (g.pushes.get? job).getD 0

/-- The store takes the families of a push that is not malformed. The push is accepted and counted if none of them is
refused, and answered with the errors of those that are, otherwise. -/
theorem api_of_not_malformed (hr : IsPush r) (hadmits : g.Admits r) (h : ¬ g.Malformed r) :
    ∃ fs, payload r = .ok fs ∧ (g.api now r).1.store = (g.store.ingestFamilies now r.labels fs).1 ∧
      (g.store.refusals now r.labels fs = [] → (g.api now r).2.status = 202 ∧
        (g.api now r).1.pushes = g.pushes.insert ((g.job? r).getD "") (g.pushCount ((g.job? r).getD "") + 1)) ∧
      (g.store.refusals now r.labels fs ≠ [] → (g.api now r).2.status = 400 ∧
        (g.api now r).2.body =
          Utf8.bytesOf ("; ".intercalate ((g.store.refusals now r.labels fs).map FamilyError.message) ++ "\n") ∧
        (g.api now r).1.pushes = g.pushes) := by
  rw [api_of_push now hr, status_withCors, body_withCors]
  have houtcome := g.push_outcome now r.labelPath r
  generalize g.push now r.labelPath r = p at houtcome
  cases houtcome with
  | unauthorized hauth => exact absurd ((g.authorizes_iff r).mpr hadmits) (by simp [hauth])
  | oddPath _ hpath => exact absurd (malformed_of_pathLabels? hpath) h
  | missingJob _ hpath httl hjob => exact absurd (malformed_of_job hpath httl hjob) h
  | unreadable _ hread => exact absurd (.unreadable _ hread) h
  | rejected hpasses hread hrefused =>
    obtain ⟨-, rfl⟩ := hpasses.labels_eq
    exact ⟨_, hread, rfl, fun hnil => absurd hnil hrefused, fun _ => ⟨rfl, rfl, rfl⟩⟩
  | accepted hpasses hread haccepted =>
    obtain ⟨-, rfl⟩ := hpasses.labels_eq
    exact ⟨_, hread, rfl, fun _ => ⟨rfl, rfl⟩, fun hne => absurd haccepted hne⟩

/-- **The answer to a push says what happened.** A push is answered 401 exactly if there are accounts and it does not
carry the credentials of one. One that may be made is answered 400 if it has a name in the path without a value, lacks a
job although metrics expire, or cannot be read. In all these cases it leaves the gateway as it is. Otherwise the
families that are accepted in their turns are committed, and no others. The answer is 202 exactly if these are all
families of the payload, and then the count of the push's job grows by one; else the answer is 400 with the errors of
the refused families, and no count changes. -/
theorem answers_push (g : Gateway) (now : Instant) (r : Request) (hr : IsPush r) :
    let t := (g.api now r).1
    let answer := (g.api now r).2
    (answer.status = 401 ↔ ¬ g.Admits r) ∧
      (g.Admits r → g.Malformed r → answer.status = 400) ∧
      (¬ g.Admits r ∨ g.Malformed r → t = g) ∧
      (g.Admits r → ¬ g.Malformed r → ∃ fs, payload r = .ok fs ∧
        let accepted := g.store.accepted now r.labels fs
        g.store.ingestFamilies now r.labels accepted = (t.store, .ok accepted.length) ∧
          (answer.status = 202 ↔ accepted = fs) ∧
          (accepted = fs → ∀ job,
            t.pushCount job = g.pushCount job + if (g.job? r).getD "" = job then 1 else 0) ∧
          (accepted ≠ fs → answer.status = 400 ∧ t.pushes = g.pushes ∧ answer.body = Utf8.bytesOf
            ("; ".intercalate ((g.store.refusals now r.labels fs).map FamilyError.message) ++ "\n"))) := by
  intro t answer
  by_cases hadmits : g.Admits r
  · by_cases hmalformed : g.Malformed r
    · obtain ⟨hsame, hstatus⟩ := api_of_malformed now hr hadmits hmalformed
      refine ⟨?_, fun _ _ => hstatus, fun _ => hsame, fun _ h => absurd hmalformed h⟩
      rw [hstatus]
      simp [hadmits]
    · obtain ⟨fs, hread, hstore, haccepted, hrefused⟩ := api_of_not_malformed now hr hadmits hmalformed
      have hcommit := Store.ingestFamilies_accepted g.store now r.labels fs
      rw [← hstore] at hcommit
      have hall : g.store.accepted now r.labels fs = fs ↔ _ := Store.accepted_eq_iff g.store now r.labels fs
      have hne401 : answer.status ≠ 401 := by
        by_cases hnil : g.store.refusals now r.labels fs = []
        · simp [answer, (haccepted hnil).1]
        · simp [answer, (hrefused hnil).1]
      have hchecked : ¬(¬ g.Admits r ∨ g.Malformed r) := not_or_intro (not_not_intro hadmits) hmalformed
      refine ⟨iff_of_false hne401 (not_not_intro hadmits), fun _ h => absurd h hmalformed,
        fun h => absurd h hchecked, fun _ _ => ⟨fs, hread, hcommit, ?_, ?_, ?_⟩⟩
      · rw [hall]
        refine ⟨fun hstatus => ?_, fun hnil => (haccepted hnil).1⟩
        by_contra hnil
        exact absurd (hstatus.symm.trans (hrefused hnil).1) (by decide)
      · intro hcommitted job
        show (t.pushes.get? job).getD 0 = _
        rw [(haccepted (hall.mp hcommitted)).2, Table.get?_insert]
        split
        next hjob => rw [← hjob]; rfl
        next => rfl
      · intro hsome
        obtain ⟨hstatus, hbody, hpushes⟩ := hrefused (fun hnil => hsome (hall.mpr hnil))
        exact ⟨hstatus, hpushes, hbody⟩
  · obtain ⟨hsame, hstatus⟩ := api_of_not_admits now hr hadmits
    exact ⟨iff_of_true hstatus hadmits, fun h => absurd h hadmits, fun _ => hsame, fun h => absurd h hadmits⟩

/-- Settings with an account, under which the job of a push is its team and metrics expire. -/
def guarded : CommandLine.Settings := { authUsers := ["u=p"], metricTtl := some 5, jobLabel := "team" }

/-- A push of two families, of which the second one has a reserved label, with the credentials of the account. -/
def mixedPush : Request where
  method := "POST"
  uri := "/metrics/team/a/team/b/"
  headers := [("authorization", "Basic dTpw")]
  body := Utf8.bytesOf "x 1\ny\x7b__z=\"1\"\x7d 2\n"

/-- After an accepted push of the job `b`, the push `mixedPush` adds the family `x` and is answered 400, for its other
family, and not counted. -/
theorem answers_push_mixedPush :
    let g := guarded.gateway.run [.api 3 { mixedPush with body := Utf8.bytesOf "z 1\n" }, .sweep 4]
    IsPush mixedPush ∧ g.Admits mixedPush ∧ ¬ g.Malformed mixedPush ∧ g.store.familySizes = [("z", 1)] ∧
      g.pushes.entries = [("b", 1)] ∧ (g.api 5 mixedPush).2.status = 400 ∧
      (g.api 5 mixedPush).1.store.familySizes = [("x", 1), ("z", 1)] ∧ (g.api 5 mixedPush).1.pushes = g.pushes := by
  intro g
  have hpush : IsPush mixedPush := ⟨.inl rfl, .inr ⟨"team/a/team/b/".toList, by decide, rfl⟩⟩
  have hadmits : g.Admits mixedPush := .inr ⟨⟨"u", "p"⟩, by decide +kernel, by decide +kernel⟩
  have hread : (payload mixedPush).toOption.isSome = true := by decide +kernel
  have hmalformed : ¬ g.Malformed mixedPush := by
    rintro (hodd | ⟨-, hjob⟩ | ⟨fault, hfault⟩)
    · exact absurd hodd (by decide +kernel)
    · exact absurd hjob (by decide +kernel)
    · rw [hfault] at hread
      cases hread
  have hstatus : (g.api 5 mixedPush).2.status = 400 := by decide +kernel
  obtain ⟨-, -, -, hchecked⟩ := answers_push g 5 mixedPush hpush
  obtain ⟨fs, -, -, haccepted, -, hrefused⟩ := hchecked hadmits hmalformed
  have hsome : g.store.accepted 5 mixedPush.labels fs ≠ fs := by
    intro hall
    cases hstatus.symm.trans (haccepted.mpr hall)
  obtain ⟨-, hpushes, -⟩ := hrefused hsome
  exact ⟨hpush, hadmits, hmalformed, by decide +kernel, by decide +kernel, hstatus, by decide +kernel, hpushes⟩

end Answers

end Gateway
end MetricGateway
