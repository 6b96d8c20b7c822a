import MetricGateway.Proofs.Label.Identity
import MetricGateway.Proofs.Store.Invariant

/-!
# Which families a store accepts

Under its canonical labels a family is `Acceptable` if its names can be written and are free in families of its type,
and its metrics are different series. The digests tell these series apart unless they collide (`Family.DigestsDiffer`),
and then a push prepares a family with metrics exactly if it is acceptable (`exists_prepare_iff`). What was prepared is
stored unless a family of the same name and another type is stored (`exists_commit_iff`).
-/

namespace MetricGateway

/-- The exposition formats keep this label name for themselves in families of the type. -/
def MetricType.Reserves (type : MetricType) (name : String) : Prop :=
  ['_', '_'] <+: name.toList ∨ type = .histogram ∧ name = boundLabel ∨ type = .summary ∧ name = quantileLabel

theorem MetricType.reservedProblem?_eq_none_iff_not_reserves (type : MetricType) (name : String) :
    type.reservedProblem? name = none ↔ ¬ type.Reserves name := by
  rw [type.reservedProblem?_eq_none_iff, Reserves, not_or, not_or]

namespace Family

/-- The names of a family can be written and are not reserved, and no two metrics are the same series. -/
structure Acceptable (f : Family) : Prop where
  name : isMetricName f.name = true
  labels : ∀ m ∈ f.metrics, ∀ l ∈ m.labels.toList, isLabelName l.name = true
  unreserved : ∀ m ∈ f.metrics, ∀ l ∈ m.labels.toList, ¬ f.type.Reserves l.name
  distinct : f.metrics.Pairwise fun a b => a.labels ≠ b.labels

/-- The hash function does not collide on the bytes of the family's series. -/
def DigestsDiffer (f : Family) : Prop :=
  ∀ a ∈ f.metrics, ∀ b ∈ f.metrics, Blake3.hash (a.labels.identityBytes f.name) =
    Blake3.hash (b.labels.identityBytes f.name) → a.labels.identityBytes f.name = b.labels.identityBytes f.name

instance (f : Family) : Decidable f.DigestsDiffer :=
  inferInstanceAs (Decidable (∀ a ∈ f.metrics, ∀ b ∈ f.metrics, _ → _ = _))

theorem DigestsDiffer.labels_eq {f : Family} (h : f.DigestsDiffer) {a b : Metric Binary64} (ha : a ∈ f.metrics)
    (hb : b ∈ f.metrics) (hdigest : seriesDigest f.name a = seriesDigest f.name b) : a.labels = b.labels :=
  (LabelSet.identityBytes_inj.mp (h a ha b hb hdigest)).2

/-! ## Checks -/

theorem acceptable_iff {f : Family} (h : f.DigestsDiffer) (hne : f.metrics ≠ []) :
    f.Acceptable ↔ f.checkReserved = .ok () ∧ f.checkSeries = .ok () := by
  rw [checkReserved_eq_ok_iff, checkSeries_eq_ok_iff]
  simp only [MetricType.reservedProblem?_eq_none_iff_not_reserves, LabelSet.nameFault?_eq_none_iff]
  constructor
  · intro hf
    refine ⟨hf.unreserved, fun m hm => ⟨hf.name, hf.labels m hm⟩, hf.distinct.imp_of_mem ?_⟩
    intro a b ha hb hab hdigest
    exact hab (h.labels_eq ha hb hdigest)
  · rintro ⟨hunreserved, hnames, hdigests⟩
    obtain ⟨m, hm⟩ := List.exists_mem_of_ne_nil _ hne
    refine ⟨(hnames m hm).1, fun m hm => (hnames m hm).2, hunreserved, hdigests.imp ?_⟩
    intro a b hab hlabels
    exact hab (by rw [seriesDigest, seriesDigest, hlabels])

/-- The first reserved name in a family is one of its label names. -/
theorem exists_of_reservedFault? {f : Family} {fault : NameFault} (h : f.reservedFault? = some fault) :
    ∃ m ∈ f.metrics, ∃ l ∈ m.labels.toList, fault.name = l.name ∧ f.type.Reserves l.name := by
  obtain ⟨l, hl, hfault⟩ := List.exists_of_findSome?_eq_some h
  obtain ⟨m, hm, hl⟩ := List.mem_flatMap.mp hl
  obtain ⟨problem, hproblem, rfl⟩ := Option.map_eq_some_iff.mp hfault
  refine ⟨m, hm, l, hl, rfl, ?_⟩
  by_contra hfree
  rw [(f.type.reservedProblem?_eq_none_iff_not_reserves l.name).mpr hfree] at hproblem
  cases hproblem

/-- Two metrics of the family, one behind the other, have these labels. -/
def Repeats (f : Family) (labels : LabelSet) : Prop :=
  ∃ before m behind, f.metrics = before ++ m :: behind ∧ m.labels = labels ∧ ∃ a ∈ before, a.labels = labels

theorem repeats_of_checkSeries {f : Family} (h : f.DigestsDiffer) {name : String} {labels : LabelSet}
    (hcheck : f.checkSeries = .error (.duplicateLabels name labels)) : f.Repeats labels := by
  rcases exists_of_checkSeriesFrom hcheck with ⟨_, he⟩ | ⟨before, m, behind, hms, he, hseen | ⟨a, ha, hdigest⟩⟩
  · cases he
  · cases hseen
  · cases he
    have hmem : ∀ a ∈ before ++ m :: behind, a ∈ f.metrics := fun a ha => hms ▸ ha
    have hsame := h.labels_eq (hmem a (by simp [ha])) (hmem m (by simp)) hdigest
    exact ⟨before, m, behind, hms, rfl, a, ha, hsame⟩

theorem merge_eq_error_iff {policy : AggregationPolicy} {f g : Family} {e : FamilyError} :
    f.merge policy g = .error e ↔ f.type ≠ g.type ∧ e = .typeMismatch f.name f.type g.type := by
  unfold merge
  split
  next h => simp [h, eq_comm]
  next h => simp [h]

end Family

namespace Store

/-- No family of this name and another type is stored. -/
def Suits (s : Store) (f : Family) : Prop := ∀ g, s.family? f.name = some g → g.type = f.type

section Accepts

variable (s : Store) (injected : List Label) (f : Family)

theorem exists_prepare_iff (h : (f.canonical injected s.options.ignored).DigestsDiffer) :
    (∃ g, s.prepare injected f = .ok g) ↔ f.metrics = [] ∨ (f.canonical injected s.options.ignored).Acceptable := by
  simp only [prepare_eq_ok_iff]
  by_cases hne : f.metrics = []
  · have hnil : (f.canonical injected s.options.ignored).metrics = [] := by simp [Family.canonical, hne]
    refine iff_of_true ⟨_, ?_, ?_, rfl⟩ (.inl hne)
    · simp [Family.checkReserved_eq_ok_iff, hnil]
    · simp [Family.checkSeries_eq_ok_iff, hnil]
  · have hne' : (f.canonical injected s.options.ignored).metrics ≠ [] := by simpa [Family.canonical] using hne
    rw [Family.acceptable_iff h hne']
    constructor
    · rintro ⟨g, hreserved, hseries, -⟩
      exact .inr ⟨hreserved, hseries⟩
    · rintro (hnil | ⟨hreserved, hseries⟩)
      · exact absurd hnil hne
      · exact ⟨_, hreserved, hseries, rfl⟩

theorem commit_eq_error_iff {g : Family} {e : FamilyError} :
    s.commit g = .error e ↔ g.metrics ≠ [] ∧ ∃ h, s.family? g.name = some h ∧ h.type ≠ g.type ∧
      e = .typeMismatch h.name h.type g.type := by
  unfold commit
  by_cases hne : g.metrics = []
  · simp [hne]
  · rw [if_neg (by simpa using hne), family?]
    cases hstored : s.families.get? g.name with
    | none => simp
    | some stored =>
      rw [Outcome.bind_eq_error_iff]
      simp [Family.merge_eq_error_iff, hne, pure, Except.pure]

/-- What is prepared is stored unless the type of its name is another one. -/
theorem exists_commit_iff {g : Family} : (∃ t, s.commit g = .ok t) ↔ g.metrics = [] ∨ s.Suits g := by
  have herror : (∃ t, s.commit g = .ok t) ↔ ¬ ∃ e, s.commit g = .error e := by
    cases s.commit g <;> simp
  rw [herror]
  simp only [commit_eq_error_iff, Suits]
  by_cases hne : g.metrics = []
  · simp [hne]
  · simp [hne]

variable {s injected f}

/-- A family that is not prepared is refused for a name, or its metrics are refused as one series. -/
theorem invalidLabel_or_duplicateLabels_of_prepare {e : FamilyError} (h : s.prepare injected f = .error e) :
    (∃ fault, e = .invalidLabel f.name fault) ∨
      (∃ labels, e = .duplicateLabels f.name labels) ∧
        (f.canonical injected s.options.ignored).checkSeries = .error e := by
  rcases Outcome.bind_eq_error_iff.mp h with h | ⟨_, -, h⟩
  · unfold Family.checkReserved at h
    split at h
    next fault _ =>
      cases h
      exact .inl ⟨fault, rfl⟩
    next => cases h
  · rcases Outcome.bind_eq_error_iff.mp h with h | ⟨_, -, h⟩
    · rcases Family.exists_of_checkSeriesFrom h with hfault | ⟨_, m, _, -, he, -⟩
      · exact .inl hfault
      · exact .inr ⟨⟨m.labels, he⟩, h⟩
    · cases h

/-- Preparing a family keeps its name and its type, and all of its metrics. -/
theorem suits_iff_of_prepare {g : Family} (h : s.prepare injected f = .ok g) :
    (s.Suits g ↔ s.Suits (f.canonical injected s.options.ignored)) ∧ (g.metrics = [] ↔ f.metrics = []) := by
  obtain ⟨-, -, rfl⟩ := (s.prepare_eq_ok_iff injected f g).mp h
  refine ⟨Iff.rfl, ?_⟩
  rw [← List.length_eq_zero_iff, ← List.length_eq_zero_iff]
  simp [Family.sortMetrics, Family.canonical, (Sorted.perm_sortBy _).length_eq]

/-- A family with a reserved name is refused for the first one. -/
theorem exists_invalidLabel_of_reserves
    (h : ∃ m ∈ (f.canonical injected s.options.ignored).metrics, ∃ l ∈ m.labels.toList, f.type.Reserves l.name) :
    ∃ fault, s.ingestFamily injected f = .error (.invalidLabel f.name fault) ∧ f.type.Reserves fault.name := by
  obtain ⟨m, hm, l, hl, hreserved⟩ := h
  cases hfault : (f.canonical injected s.options.ignored).reservedFault? with
  | none =>
    have hcheck : (f.canonical injected s.options.ignored).checkReserved = .ok () := by
      rw [Family.checkReserved, hfault]
    have hfree := (Family.checkReserved_eq_ok_iff _).mp hcheck m hm l hl
    exact absurd hreserved ((MetricType.reservedProblem?_eq_none_iff_not_reserves _ _).mp hfree)
  | some fault =>
    have hcheck : (f.canonical injected s.options.ignored).checkReserved = .error (.invalidLabel f.name fault) := by
      rw [Family.checkReserved, hfault]
      rfl
    obtain ⟨_, -, l, -, hname, hreserved⟩ := Family.exists_of_reservedFault? hfault
    refine ⟨fault, ?_, hname ▸ hreserved⟩
    rw [ingestFamily, prepare, hcheck]
    rfl

end Accepts

/-- **Which families a store accepts.** Suppose that the hash function does not collide on the series of a family under
their canonical labels. Then the store accepts the family exactly if it has no metrics, or if it is acceptable and no
family of its name and another type is stored. A refused family is refused for a reserved name if it has one, for its
type exactly if it is acceptable, and as a repetition only if two of its metrics have the label set that is reported. -/
theorem accepts_iff_acceptable (s : Store) (injected : List Label) (f : Family)
    (hdigests : (f.canonical injected s.options.ignored).DigestsDiffer) :
    let c := f.canonical injected s.options.ignored
    ((∃ t, s.ingestFamily injected f = .ok t) ↔ f.metrics = [] ∨ c.Acceptable ∧ s.Suits c) ∧
      ∀ e, s.ingestFamily injected f = .error e →
        ((∃ m ∈ c.metrics, ∃ l ∈ m.labels.toList, c.type.Reserves l.name) →
          ∃ fault, e = .invalidLabel f.name fault ∧ c.type.Reserves fault.name) ∧
        ((∃ name existing incoming, e = .typeMismatch name existing incoming) ↔ c.Acceptable) ∧
        ∀ name labels, e = .duplicateLabels name labels → c.Repeats labels := by
  intro c
  have hprepare : (∃ g, s.prepare injected f = .ok g) ↔ f.metrics = [] ∨ c.Acceptable :=
    s.exists_prepare_iff injected f hdigests
  refine ⟨?_, fun e he => ⟨fun hreserved => ?_, ?_, ?_⟩⟩
  · have hboth : (∃ t, s.ingestFamily injected f = .ok t) ↔
        (∃ g, s.prepare injected f = .ok g) ∧ (f.metrics = [] ∨ s.Suits c) := by
      constructor
      · rintro ⟨t, ht⟩
        obtain ⟨g, hg, ht⟩ := Outcome.bind_eq_ok_iff.mp ht
        obtain ⟨hsuits, hnil⟩ := suits_iff_of_prepare hg
        rw [← hsuits, ← hnil]
        exact ⟨⟨g, hg⟩, s.exists_commit_iff.mp ⟨t, ht⟩⟩
      · rintro ⟨⟨g, hg⟩, hcommit⟩
        obtain ⟨hsuits, hnil⟩ := suits_iff_of_prepare hg
        rw [← hsuits, ← hnil] at hcommit
        obtain ⟨t, ht⟩ := s.exists_commit_iff.mpr hcommit
        exact ⟨t, Outcome.bind_eq_ok_iff.mpr ⟨g, hg, ht⟩⟩
    rw [hboth, hprepare]
    tauto
  · obtain ⟨fault, hfault, hname⟩ := exists_invalidLabel_of_reserves hreserved
    rw [hfault] at he
    cases he
    exact ⟨fault, rfl, hname⟩
  · rcases Outcome.bind_eq_error_iff.mp he with he | ⟨g, hg, he⟩
    · have hunprepared : ¬ ∃ g, s.prepare injected f = .ok g := by simp [he]
      refine iff_of_false ?_ fun hc => hunprepared (hprepare.mpr (.inr hc))
      rintro ⟨name, existing, incoming, rfl⟩
      rcases invalidLabel_or_duplicateLabels_of_prepare he with ⟨_, h⟩ | ⟨⟨_, h⟩, -⟩ <;> cases h
    · obtain ⟨hne, h, -, -, rfl⟩ := s.commit_eq_error_iff.mp he
      refine iff_of_true ⟨_, _, _, rfl⟩ ((hprepare.mp ⟨g, hg⟩).resolve_left ?_)
      rwa [← (suits_iff_of_prepare hg).2]
  · intro name labels hlabels
    rcases Outcome.bind_eq_error_iff.mp he with he | ⟨g, hg, he⟩
    · rcases invalidLabel_or_duplicateLabels_of_prepare he with ⟨_, h⟩ | ⟨-, hcheck⟩
      · cases hlabels.symm.trans h
      · exact Family.repeats_of_checkSeries hdigests (hlabels ▸ hcheck)
    · obtain ⟨-, h, -, -, rfl⟩ := s.commit_eq_error_iff.mp he
      cases hlabels

/-- A counter of two pods that serve the paths. -/
def servedPaths (a b : String) : Family where
  name := "requests"
  type := .counter
  metrics := [⟨(LabelSet.empty.insert ⟨"pod", "1"⟩).insert ⟨"path", a⟩, .counter .zero, 1⟩,
    ⟨(LabelSet.empty.insert ⟨"pod", "2"⟩).insert ⟨"path", b⟩, .counter .zero, 1⟩]

/-- With the pods ignored, the counters of two paths are stored, and those of one path are refused as one series. -/
theorem accepts_iff_acceptable_servedPaths :
    let s := new { ignored := .ofList ["pod"] }
    let job : List Label := [⟨"job", "a"⟩]
    ((servedPaths "/a" "/b").canonical job s.options.ignored).DigestsDiffer ∧
      (∃ t, s.ingestFamily job (servedPaths "/a" "/b") = .ok t) ∧
      ((servedPaths "/a" "/a").canonical job s.options.ignored).DigestsDiffer ∧
      ((servedPaths "/a" "/a").canonical job s.options.ignored).Repeats
        ((LabelSet.empty.insert ⟨"job", "a"⟩).insert ⟨"path", "/a"⟩) := by
  intro s job
  have hdiffer : ((servedPaths "/a" "/b").canonical job s.options.ignored).DigestsDiffer := by decide +kernel
  have hsame : ((servedPaths "/a" "/a").canonical job s.options.ignored).DigestsDiffer := by decide +kernel
  have haccept : ((servedPaths "/a" "/b").canonical job s.options.ignored).Acceptable := by
    refine ⟨by decide +kernel, by decide +kernel, ?_, by decide +kernel⟩
    simp only [← MetricType.reservedProblem?_eq_none_iff_not_reserves]
    decide +kernel
  have hrefused : s.prepare job (servedPaths "/a" "/a") = .error (.duplicateLabels "requests"
      ((LabelSet.empty.insert ⟨"job", "a"⟩).insert ⟨"path", "/a"⟩)) := by decide +kernel
  refine ⟨hdiffer, ?_, hsame, ?_⟩
  · refine (accepts_iff_acceptable s job _ hdiffer).1.mpr (.inr ⟨haccept, ?_⟩)
    intro g hg
    cases hg
  · exact ((accepts_iff_acceptable s job _ hsame).2 _ (by rw [ingestFamily, hrefused]; rfl)).2.2 _ _ rfl

end Store
end MetricGateway
