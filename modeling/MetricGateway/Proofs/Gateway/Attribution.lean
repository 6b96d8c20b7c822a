import MetricGateway.Proofs.Gateway.Authorization
import MetricGateway.Proofs.Gateway.PathLabels
import MetricGateway.Proofs.Store.Refinement

/-!
# To whom a push is attributed

The path of a push spells labels, segment by segment, and a series is `Attributed` if it bears them: a spelled name has
the last value that is spelled for it, and a name that is not spelled has the value of the pushed metric.

- An accepted push commits only series of its metrics under the labels that the path is read as
  (`exists_pushed_of_accepted`).
- These are attributed, whatever labels the metrics have, exactly if the path as a whole gives every name that is not
  ignored the last value that is spelled for it (`attributed_canonical_iff`).
- So it is where every segment is decoded into a text without a slash. Where a segment is decoded into a text with a
  slash, an accepted push may be attributed to another job (`misattributed_of_slash`).
-/

namespace MetricGateway

/-! ## Attribution -/

/-- What is spelled as the value of a name, by the last of its pairs, if there is one. -/
def spelledValue? (name : String) (segments : List (List Char)) : Option (Option String) :=
  ((spelledPairs segments).reverse.find? (·.1 = some name)).map Prod.snd

/-- The labels bear what is spelled, and for the names that are not spelled what the metric's own labels say. -/
structure Attributed (segments : List (List Char)) (ignored : IgnoredNames) (own labels : LabelSet) : Prop where
  spelled : ∀ name value, ignored.contains name = false → spelledValue? name segments = some value →
    ∃ text, value = some text ∧ labels.get? name = some text
  others : ∀ name, ignored.contains name = false → spelledValue? name segments = none → labels.get? name = own.get? name

theorem spelledValue?_of_pairs {ls : List Label} {segments : List (List Char)}
    (h : ls.map Label.pair = spelledPairs segments) (name : String) :
    spelledValue? name segments = (lastValue? name ls).map some := by
  have hnamed : (fun e : Option String × Option String => decide (e.1 = some name)) ∘ Label.pair =
      fun l => decide (l.name = name) := by
    funext l
    simp [Label.pair]
  rw [spelledValue?, ← h, lastValue?, ← List.map_reverse, List.find?_map, hnamed, Option.map_map, Option.map_map]
  rfl

/-- Canonical labels are attributed, whatever the labels of the metric, exactly if the injected labels have the values
that are spelled. -/
theorem attributed_canonical_iff {segments : List (List Char)} {ignored : IgnoredNames} {ls : List Label} :
    (∀ own : LabelSet, Attributed segments ignored own (own.canonical ls ignored)) ↔
      ∀ name, ignored.contains name = false → spelledValue? name segments = (lastValue? name ls).map some := by
  constructor
  · intro h name hname
    have hget := LabelSet.get?_canonical .empty ls ignored name
    rw [hname] at hget
    cases hv : spelledValue? name segments with
    | none =>
      have hother := (h .empty).others name hname hv
      rw [hget] at hother
      cases hlast : lastValue? name ls with
      | none => rfl
      | some text =>
        rw [hlast] at hother
        cases hother
    | some value =>
      obtain ⟨text, rfl, htext⟩ := (h .empty).spelled name value hname hv
      rw [hget] at htext
      cases hlast : lastValue? name ls with
      | none =>
        rw [hlast] at htext
        cases htext
      | some text' =>
        rw [hlast] at htext
        exact congrArg (Option.map some) htext.symm
  · intro h own
    refine ⟨fun name value hname hv => ?_, fun name hname hv => ?_⟩
    · rw [h name hname, Option.map_eq_some_iff] at hv
      obtain ⟨text, hlast, rfl⟩ := hv
      refine ⟨text, rfl, ?_⟩
      rw [LabelSet.get?_canonical, hname, hlast]
      rfl
    · rw [h name hname, Option.map_eq_none_iff] at hv
      rw [LabelSet.get?_canonical, hname, hv]
      rfl

namespace Gateway

/-! ## Accepted pushes -/

theorem status_refused_ne (refusal : Refusal) : (Answer.refused refusal).status ≠ 202 := by
  intro h
  cases refusal <;> cases h

/-- A push that is not refused has a path with labels and a payload that can be read, and the store takes the families
under these labels. -/
theorem exists_ingested_of_push {g : Gateway} {now : Instant} {labelPath : List Char} {r : Request}
    (h : (g.push now labelPath r).2 = none) :
    ∃ fs ls, (ExpositionFormat.ofContentType (r.textHeader? "content-type")).read r.body = .ok fs ∧
      pathLabels? ((decodedPath? labelPath).getD []) = some ls ∧
      (g.push now labelPath r).1.store = (g.store.ingestFamilies now ls fs).1 := by
  have houtcome := g.push_outcome now labelPath r
  generalize g.push now labelPath r = p at h houtcome ⊢
  cases houtcome with
  | unauthorized | oddPath | missingJob | unreadable | rejected => cases h
  | accepted hpasses hread => exact ⟨_, _, hread, hpasses.labelled, rfl⟩

theorem push_of_accepted {g : Gateway} {now : Instant} {r : Request} {labelPath : List Char}
    (hmethod : r.method = "POST" ∨ r.method = "PUT") (hpath : apiPath? r.path = some labelPath)
    (hstatus : (g.api now r).2.status = 202) : (g.push now labelPath r).2 = none := by
  rw [api_of_isPush hmethod hpath, status_withCors] at hstatus
  cases hrefusal : (g.push now labelPath r).2 with
  | none => rfl
  | some refusal =>
    have hanswer : (g.pushAnswer now labelPath r).2 = .refused refusal := by
      unfold pushAnswer
      split <;> simp_all
    rw [hanswer] at hstatus
    exact absurd hstatus (status_refused_ne refusal)

/-- An accepted push commits only series of its metrics under the labels of its path. -/
theorem exists_pushed_of_accepted {g : Gateway} (hg : g.store.Sound) {now : Instant} {r : Request}
    {labelPath : List Char} (hmethod : r.method = "POST" ∨ r.method = "PUT") (hpath : apiPath? r.path = some labelPath)
    (hstatus : (g.api now r).2.status = 202) :
    ∃ fs ls, (ExpositionFormat.ofContentType (r.textHeader? "content-type")).read r.body = .ok fs ∧
      pathLabels? ((decodedPath? labelPath).getD []) = some ls ∧
      ∀ name labels, (g.api now r).1.store.series? name labels ≠ g.store.series? name labels →
        Ledger.Pushes g.store.options ls fs name labels := by
  obtain ⟨fs, ls, hread, hls, hstore⟩ := exists_ingested_of_push (push_of_accepted hmethod hpath hstatus)
  refine ⟨fs, ls, hread, hls, fun name labels hne => ?_⟩
  rw [api_of_isPush hmethod hpath] at hne
  dsimp only at hne
  rw [hstore] at hne
  exact Store.pushes_of_series?_ne hg now ls fs hne

/-! ## Attribution of accepted pushes -/

/-- **When a push is attributed as its path says.** Let a push on a path of paired segments be accepted by a gateway in
any state that it reaches. It commits only series of its metrics under the labels that the path is read as. These are
attributed, whatever labels the metrics have, exactly if the path read as a whole gives every name that is not ignored
the last value that is spelled for it. The path is read as just the pairs that are spelled exactly if every segment is
decoded into a text without a slash, and then the push is attributed. -/
theorem attributed_iff_of_accepted (settings : CommandLine.Settings) (events : List Event) (now : Instant) (r : Request)
    {segments : List (List Char)} (hmethod : r.method = "POST" ∨ r.method = "PUT")
    (hpath : r.path = "/metrics/".toList ++ ['/'].intercalate segments) (hne : segments ≠ [])
    (hsegments : ∀ s ∈ segments, s ≠ [] ∧ '/' ∉ s) (heven : segments.length % 2 = 0)
    (hstatus : ((settings.gateway.run events).api now r).2.status = 202) :
    ∃ fs ls, (ExpositionFormat.ofContentType (r.textHeader? "content-type")).read r.body = .ok fs ∧
      pathLabels? ((decodedPath? (['/'].intercalate segments)).getD []) = some ls ∧
      (∀ name labels, ((settings.gateway.run events).api now r).1.store.series? name labels ≠
          (settings.gateway.run events).store.series? name labels →
        Ledger.Pushes settings.storeOptions ls fs name labels) ∧
      ((∀ own : LabelSet, Attributed segments settings.storeOptions.ignored own
          (own.canonical ls settings.storeOptions.ignored)) ↔
        ∀ name, settings.storeOptions.ignored.contains name = false →
          spelledValue? name segments = (lastValue? name ls).map some) ∧
      (ls.map Label.pair = spelledPairs segments ↔ ∀ s ∈ segments, ∃ t, decodedPath? s = some t ∧ '/' ∉ t) ∧
      ((∀ s ∈ segments, ∃ t, decodedPath? s = some t ∧ '/' ∉ t) → ∀ own : LabelSet,
        Attributed segments settings.storeOptions.ignored own (own.canonical ls settings.storeOptions.ignored)) := by
  have hsound : (settings.gateway.run events).store.Sound := sound_run (Store.sound_new settings.storeOptions) events
  have hoptions : (settings.gateway.run events).store.options = settings.storeOptions :=
    Store.options_of_changes (settings.gateway.changes_run events)
  have hrest : ['/'].intercalate segments ≠ [] := by
    obtain ⟨b, d, hjoin, -⟩ := Text.exists_intercalate_eq_append hne hsegments
    rw [hjoin]
    simp
  have hapi : apiPath? r.path = some (['/'].intercalate segments) := by
    rw [hpath]
    exact apiPath?_append hrest
  obtain ⟨fs, ls, hread, hls, hpushed⟩ := exists_pushed_of_accepted hsound hmethod hapi hstatus
  rw [hoptions] at hpushed
  have hpairs := pairs_eq_spelledPairs_iff hne (fun s hs => (hsegments s hs).1) heven hls
  refine ⟨fs, ls, hread, hls, hpushed, attributed_canonical_iff, hpairs, fun hdecoded => ?_⟩
  refine attributed_canonical_iff.mpr fun name _ => ?_
  exact spelledValue?_of_pairs (hpairs.mpr hdecoded) name

/-- Settings that drop the pod of every metric. -/
def podless : CommandLine.Settings := { ignoredLabels := ["pod"] }

/-- The segments of a path whose job is percent-encoded in UTF-8. -/
def cafeSegments : List (List Char) := ["job".toList, "caf%C3%A9".toList, "pod".toList, "1%2B".toList]

/-- A push on the path of `cafeSegments`. -/
def cafePush : Request where
  method := "PUT"
  uri := "/metrics/job/caf%C3%A9/pod/1%2B"
  body := Utf8.bytesOf "x 1\n"

/-- The push `cafePush` is accepted, also after a sweep, and attributed to the decoded job. -/
theorem attributed_cafePush :
    (cafePush.method = "POST" ∨ cafePush.method = "PUT") ∧
      cafePush.path = "/metrics/".toList ++ ['/'].intercalate cafeSegments ∧ cafeSegments ≠ [] ∧
      (∀ s ∈ cafeSegments, s ≠ [] ∧ '/' ∉ s) ∧ cafeSegments.length % 2 = 0 ∧
      ((podless.gateway.run [.sweep 3]).api 5 cafePush).2.status = 202 ∧
      ∃ ls, pathLabels? ((decodedPath? (['/'].intercalate cafeSegments)).getD []) = some ls ∧ ∀ own : LabelSet,
        Attributed cafeSegments podless.storeOptions.ignored own (own.canonical ls podless.storeOptions.ignored) := by
  have hmethod : cafePush.method = "POST" ∨ cafePush.method = "PUT" := .inr rfl
  have hpath : cafePush.path = "/metrics/".toList ++ ['/'].intercalate cafeSegments := by decide +kernel
  have hne : cafeSegments ≠ [] := by decide +kernel
  have hsegments : ∀ s ∈ cafeSegments, s ≠ [] ∧ '/' ∉ s := by decide +kernel
  have heven : cafeSegments.length % 2 = 0 := rfl
  have hstatus : ((podless.gateway.run [.sweep 3]).api 5 cafePush).2.status = 202 := by decide +kernel
  have hdecoded : ∀ s ∈ cafeSegments, ∃ t, decodedPath? s = some t ∧ '/' ∉ t := by
    simp only [cafeSegments, List.forall_mem_cons, List.not_mem_nil, false_implies, implies_true, and_true]
    exact ⟨⟨"job".toList, by decide +kernel⟩, ⟨"café".toList, by decide +kernel⟩, ⟨"pod".toList, by decide +kernel⟩,
      ⟨"1+".toList, by decide +kernel⟩⟩
  obtain ⟨fs, ls, -, hls, -, -, -, hattributed⟩ :=
    attributed_iff_of_accepted podless [.sweep 3] 5 cafePush hmethod hpath hne hsegments heven hstatus
  exact ⟨hmethod, hpath, hne, hsegments, heven, hstatus, ls, hls, hattributed hdecoded⟩

/-- The segments of a path whose job has encoded slashes. -/
def slashSegments : List (List Char) := ["job".toList, "a%2Fb%2Fc".toList]

/-- A push on the path of `slashSegments`. -/
def slashPush : Request where
  method := "POST"
  uri := "/metrics/job/a%2Fb%2Fc"
  body := Utf8.bytesOf "x 1\n"

/-- The labels `job="a"` and `b="c"`. -/
def slashLabels : LabelSet := (LabelSet.empty.insert ⟨"job", "a"⟩).insert ⟨"b", "c"⟩

/-- The job of `slashPush` is `a/b/c`, and the push is accepted, but the series that it commits is one of the job `a`
with one more label. -/
theorem misattributed_of_slash :
    slashPush.path = "/metrics/".toList ++ ['/'].intercalate slashSegments ∧
      ((CommandLine.Settings.gateway {}).api 0 slashPush).2.status = 202 ∧
      ((CommandLine.Settings.gateway {}).api 0 slashPush).1.store.series? "x" slashLabels ≠
        (CommandLine.Settings.gateway {}).store.series? "x" slashLabels ∧
      spelledValue? "job" slashSegments = some (some "a/b/c") ∧
      ¬ Attributed slashSegments ⟨[]⟩ .empty slashLabels := by
  have hspelled : spelledValue? "job" slashSegments = some (some "a/b/c") := by decide +kernel
  have hjob : slashLabels.get? "job" ≠ some "a/b/c" := by decide +kernel
  refine ⟨by decide +kernel, by decide +kernel, by decide +kernel, hspelled, fun h => ?_⟩
  obtain ⟨text, htext, hget⟩ := h.spelled "job" _ rfl hspelled
  rw [Option.some_inj.mp htext] at hjob
  exact hjob hget

end Gateway
end MetricGateway
