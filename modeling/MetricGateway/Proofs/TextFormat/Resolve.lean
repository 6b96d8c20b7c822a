import MetricGateway.Proofs.TextFormat.Drafts

/-!
# Which family a sample belongs to

A sample name that ends in a suffix belongs to the family in front of it if that family bears the suffix
(`resolve_append`). So the family claims the samples of another one whose name ends like this (`Drafts.Claims`); where
no family claims them, the samples of a name belong to the family of this name (`resolve_of_unclaimed`).
-/

namespace MetricGateway.TextFormat

/-- A family claims the samples of a name, which is its own name with a suffix that it bears. -/
def Drafts.Claims (ds : Drafts) (base sample : String) : Prop :=
  ∃ e ∈ sampleSuffixes, sample = base ++ e.1 ∧ bearsSuffix (ds.draft base).type e.2 = true

theorem not_claims_nil {base sample : String} : ¬ Drafts.Claims [] base sample := by
  rintro ⟨e, -, -, hbears⟩
  cases hbears

theorem suffixed?_eq_some_iff {ds : Drafts} {sample : String} {e found : String × SampleKind} :
    ds.suffixed? sample e = some found ↔
      sample = found.1 ++ e.1 ∧ bearsSuffix (ds.draft found.1).type e.2 = true ∧ found.2 = e.2 := by
  unfold Drafts.suffixed?
  constructor
  · intro h
    split at h
    · cases h
    next base hbase =>
      split at h
      next hbears =>
        cases h
        rw [Drafts.type?_eq] at hbears
        refine ⟨?_, hbears, rfl⟩
        rw [← String.toList_inj, String.toList_append, String.toList_ofList]
        exact (List.isSuffixOf?_eq_some_iff_append_eq.mp hbase).symm
      next => cases h
  · rintro ⟨rfl, hbears, hkind⟩
    have hbase : e.1.toList.isSuffixOf? (found.1 ++ e.1).toList = some found.1.toList := by
      rw [List.isSuffixOf?_eq_some_iff_append_eq, String.toList_append]
    rw [hbase]
    dsimp only
    rw [String.ofList_toList, Drafts.type?_eq, if_pos hbears, ← hkind]

theorem append_suffix_ne {e : String × SampleKind} (he : e ∈ sampleSuffixes) {base : String} : base ++ e.1 ≠ base := by
  intro h
  have hlist := congrArg String.toList h
  rw [String.toList_append] at hlist
  have hnil : ∀ e ∈ sampleSuffixes, e.1.toList ≠ [] := by decide
  exact hnil e he (List.append_right_eq_self.mp hlist)

/-- No suffix ends in another one. -/
theorem eq_of_append_suffix {e e' : String × SampleKind} (he : e ∈ sampleSuffixes) (he' : e' ∈ sampleSuffixes)
    {base base' : String} (h : base ++ e.1 = base' ++ e'.1) : base = base' ∧ e = e' := by
  have hlist : base.toList ++ e.1.toList = base'.toList ++ e'.1.toList := by
    rw [← String.toList_append, ← String.toList_append, h]
  have hrev : e.1.toList.reverse ++ base.toList.reverse = e'.1.toList.reverse ++ base'.toList.reverse := by
    rw [← List.reverse_append, ← List.reverse_append, hlist]
  have hsame : e = e' := by
    have hpre : e.1.toList.reverse.take 4 = e'.1.toList.reverse.take 4 := by
      have htake := congrArg (List.take 4) hrev
      have hlen : ∀ e ∈ sampleSuffixes, 4 ≤ e.1.toList.reverse.length := by decide
      rwa [List.take_append_of_le_length (hlen e he), List.take_append_of_le_length (hlen e' he')] at htake
    have hinj : ∀ e ∈ sampleSuffixes, ∀ e' ∈ sampleSuffixes,
        e.1.toList.reverse.take 4 = e'.1.toList.reverse.take 4 → e = e' := by decide
    exact hinj e he e' he' hpre
  subst hsame
  exact ⟨String.toList_inj.mp (List.append_cancel_right hlist), rfl⟩

theorem resolve_append {ds : Drafts} {e : String × SampleKind} (he : e ∈ sampleSuffixes) {base : String}
    (hbears : bearsSuffix (ds.draft base).type e.2 = true) : ds.resolve (base ++ e.1) = (base, e.2) := by
  have hfound : ds.suffixed? (base ++ e.1) e = some (base, e.2) := suffixed?_eq_some_iff.mpr ⟨rfl, hbears, rfl⟩
  unfold Drafts.resolve
  split
  next found h =>
    obtain ⟨e', he', h⟩ := List.exists_of_findSome?_eq_some h
    obtain ⟨hname, -, hkind⟩ := suffixed?_eq_some_iff.mp h
    obtain ⟨hbase, hsuffix⟩ := eq_of_append_suffix he he' hname
    rw [hbase, hsuffix, ← hkind]
  next h =>
    have hnone := List.findSome?_eq_none_iff.mp h e he
    rw [hfound] at hnone
    cases hnone

theorem resolve_of_unclaimed {ds : Drafts} {sample : String} (h : ∀ base, ¬ ds.Claims base sample) :
    ds.resolve sample = (sample, if (ds.draft sample).type = some .summary then .quantile else .plain) := by
  unfold Drafts.resolve
  split
  next found hfound =>
    obtain ⟨e, he, hfound⟩ := List.exists_of_findSome?_eq_some hfound
    obtain ⟨hname, hbears, -⟩ := suffixed?_eq_some_iff.mp hfound
    exact absurd ⟨e, he, hname, hbears⟩ (h found.1)
  next => rw [Drafts.type?_eq]

/-- A sample that bears only the name of its family is claimed by no other one. -/
theorem suffix_of_resolve {ds : Drafts} {sample family : String} {kind : SampleKind}
    (h : ds.resolve sample = (family, kind)) {base : String} (hclaims : ds.Claims base family) :
    kind ≠ .plain ∧ kind ≠ .quantile := by
  by_cases hfree : ∀ base, ¬ ds.Claims base sample
  · rw [resolve_of_unclaimed hfree] at h
    cases h
    exact absurd hclaims (hfree base)
  · obtain ⟨base', e, he, rfl, hbears⟩ : ∃ base, ds.Claims base sample := by simpa using hfree
    rw [resolve_append he hbears] at h
    cases h
    have hsuffix : ∀ e ∈ sampleSuffixes, e.2 ≠ .plain ∧ e.2 ≠ .quantile := by decide
    exact hsuffix e he

end MetricGateway.TextFormat
