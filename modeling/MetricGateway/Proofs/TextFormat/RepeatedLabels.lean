import MetricGateway.Proofs.TextFormat.Belonging
import MetricGateway.Store.Ingest

/-!
# Sample lines that name a label twice

The names of the labels of a sample must be different, but they are compared only when the label that belongs to the
sample itself was taken out: the bound of a bucket or the share of a quantile (`OwnLabel`). So the repetition of this
one label slips through (`Slips`), and a line that repeats any other name makes the whole text unreadable
(`refuses_repeated_iff`).
-/

namespace MetricGateway

namespace TextFormat

/-! ## The label that belongs to a sample -/

/-- By what the lines declare, a label of this name belongs to the samples of this name rather than to their series. -/
inductive OwnLabel (lines : List (List Char)) (sample : String) : String → Prop
  | bound {base : String} (hdeclared : DeclaredIn lines base .histogram) (hname : sample = base ++ "_bucket") :
      OwnLabel lines sample boundLabel
  | quantile (hdeclared : DeclaredIn lines sample .summary) (hfree : ¬ ClaimedIn lines sample) :
      OwnLabel lines sample quantileLabel

theorem ownLabel_iff {lines : List (List Char)} {ds : Drafts} (hread : lines.foldlM readTrimmed [] = .ok ds)
    {sample name : String} : OwnLabel lines sample name ↔ (ds.resolve sample).2.ownLabel? = some name ∧
      hasSamples (ds.typeOf (ds.resolve sample).1) (ds.resolve sample).2 = true := by
  by_cases hclaimed : ClaimedIn lines sample
  · obtain ⟨base, e, he, rfl, hbears⟩ := (claims_iff_claimedIn hread sample).mpr hclaimed
    rw [resolve_append he hbears]
    constructor
    · rintro (⟨hbase, hname⟩ | ⟨-, hfree⟩)
      · have he' : ("_bucket", SampleKind.bucket) ∈ sampleSuffixes := by decide
        obtain ⟨rfl, rfl⟩ := eq_of_append_suffix he he' hname
        rw [Drafts.typeOf, type_of_declared hread hbase]
        exact ⟨rfl, rfl⟩
      · exact absurd hclaimed hfree
    · rintro ⟨hown, -⟩
      have hbucket : ∀ e ∈ sampleSuffixes, e.2.ownLabel? ≠ none → e = ("_bucket", .bucket) := by decide
      obtain rfl := hbucket e he (by simp [hown])
      cases hown
      have htype : (ds.draft base).type = some .histogram := by simpa [bearsSuffix] using hbears
      exact .bound ((type_eq_some_iff hread (by decide)).mp htype) rfl
  · have hfree : ∀ base, ¬ ds.Claims base sample := fun base hclaims =>
      hclaimed ((claims_iff_claimedIn hread sample).mp ⟨base, hclaims⟩)
    rw [resolve_of_unclaimed hfree]
    constructor
    · rintro (⟨hbase, hname⟩ | ⟨hsummary, -⟩)
      · exact absurd (.histogram _ _ hbase (by simp) hname) hclaimed
      · have htype := (type_eq_some_iff hread (by decide)).mpr hsummary
        rw [if_pos htype, Drafts.typeOf, htype]
        exact ⟨rfl, rfl⟩
    · rintro ⟨hown, -⟩
      split at hown
      next htype =>
        cases hown
        exact .quantile ((type_eq_some_iff hread (by decide)).mp htype) hclaimed
      next => cases hown

/-! ## Repetitions -/

/-- A sample line in which two labels have the same name, if it can be read at all. -/
structure RepeatsLabel (line : List Char) : Prop where
  sample : isSample line = true
  repeated : ∀ s, SampleLine.read line = .ok s → ¬ (s.labels.map Label.name).Nodup

/-- The repetition is that of the label which belongs to the sample: without the first label of this name, which must be
a number, the names are different. Neither this line nor those in front of it, none of which has blanks around it, are
wrong in another way. -/
inductive Slips (pre : List (List Char)) (line : List Char) : Prop
  | own {ds : Drafts} {s : SampleLine} {name : String} {l : Label} {v : Binary64}
      (hpre : pre.foldlM readTrimmed [] = .ok ds) (hs : SampleLine.read line = .ok s) (hown : OwnLabel pre s.name name)
      (hfirst : s.labels.find? (·.name = name) = some l) (hnumber : Binary64.read? l.value.toList = some v)
      (hnan : v.isNaN = false) (hrest : ((s.labels.eraseP (·.name = name)).map Label.name).Nodup) : Slips pre line

theorem takeOwnLabel_eq_ok_iff {s : SampleLine} {name : String} {own : Binary64} {rest : List Label} :
    takeOwnLabel s name = .ok (own, rest) ↔ (∃ l, s.labels.find? (·.name = name) = some l ∧
      Binary64.read? l.value.toList = some own) ∧ own.isNaN = false ∧ rest = s.labels.eraseP (·.name = name) := by
  constructor
  · intro h
    unfold takeOwnLabel at h
    split at h
    · cases h
    next l hfirst =>
      split at h
      · cases h
      next v hnumber =>
        split at h
        · cases h
        next hnan =>
          cases h
          exact ⟨⟨l, hfirst, hnumber⟩, by simpa using hnan, rfl⟩
  · rintro ⟨⟨l, hfirst, hnumber⟩, hnan, rfl⟩
    simp [takeOwnLabel, hfirst, hnumber, hnan]

/-- What a sample adds, by its own label and the other labels. -/
theorem exists_readSample?_iff {ds : Drafts} {s : SampleLine} :
    (∃ r, ds.readSample? s = some r) ↔ hasSamples (ds.typeOf (ds.resolve s.name).1) (ds.resolve s.name).2 = true ∧
      ∃ own ls, splitLabels s (ds.resolve s.name).2 = .ok (own, ls) ∧ (ls.map Label.name).Nodup := by
  simp only [Drafts.readSample?_eq_some_iff, ← LabelSet.exists_ofList?_iff, LabelSet.ofList?_eq_ok_iff]
  constructor
  · rintro ⟨r, hsamples, own, ls, hsplit, hperm, hr⟩
    have hfamily : r.family = (ds.resolve s.name).1 := by rw [hr]
    exact ⟨hfamily ▸ hsamples, own, ls, hsplit, r.labels, hperm⟩
  · rintro ⟨hsamples, own, ls, hsplit, labels, hperm⟩
    exact ⟨⟨⟨_, labels, _⟩, s.value⟩, hsamples, own, ls, hsplit, hperm, rfl⟩

theorem reading?_eq_some_iff {ds : Drafts} {line : List Char} {r : Reading} :
    ds.reading? line = some r ↔ ∃ s, SampleLine.read line = .ok s ∧ ds.readSample? s = some r := by
  unfold Drafts.reading?
  cases SampleLine.read line <;> simp [Except.toOption]

/-- A sample line is read behind other lines exactly if it adds something to what they say. -/
theorem foldlM_concat_eq_ok_iff {pre : List (List Char)} {line : List Char} (hsample : isSample line = true) :
    (∃ es, (pre ++ [line]).foldlM readTrimmed [] = .ok es) ↔ ∃ ds s, pre.foldlM readTrimmed [] = .ok ds ∧
      SampleLine.read line = .ok s ∧ ∃ r, ds.readSample? s = some r := by
  simp only [Outcome.foldlM_append_eq_ok_iff, Outcome.foldlM_cons_eq_ok_iff, readTrimmed_eq_ok_iff hsample,
    reading?_eq_some_iff]
  constructor
  · rintro ⟨es, ds, hpre, _, ⟨r, ⟨s, hs, hr⟩, -⟩, -⟩
    exact ⟨ds, s, hpre, hs, r, hr⟩
  · rintro ⟨ds, s, hpre, hs, r, hr⟩
    exact ⟨ds.enter r, ds, hpre, ds.enter r, ⟨r, ⟨s, hs, hr⟩, rfl⟩, rfl⟩

/-- A line that repeats a label is read behind other lines exactly if the repetition slips through. -/
theorem slips_iff {pre : List (List Char)} {line : List Char} (h : RepeatsLabel line) :
    (∃ es, (pre ++ [line]).foldlM readTrimmed [] = .ok es) ↔ Slips pre line := by
  rw [foldlM_concat_eq_ok_iff h.sample]
  constructor
  · rintro ⟨ds, s, hpre, hs, hr⟩
    obtain ⟨hsamples, own, ls, hsplit, hnodup⟩ := exists_readSample?_iff.mp hr
    unfold splitLabels at hsplit
    split at hsplit
    next =>
      cases hsplit
      exact absurd hnodup (h.repeated s hs)
    next name hown =>
      obtain ⟨⟨l, hfirst, hnumber⟩, hnan, rfl⟩ := takeOwnLabel_eq_ok_iff.mp hsplit
      exact .own hpre hs ((ownLabel_iff hpre).mpr ⟨hown, hsamples⟩) hfirst hnumber hnan hnodup
  · rintro @⟨ds, s, name, l, v, hpre, hs, hname, hfirst, hnumber, hnan, hrest⟩
    obtain ⟨hown, hsamples⟩ := (ownLabel_iff hpre).mp hname
    have hsplit : splitLabels s (ds.resolve s.name).2 = .ok (v, s.labels.eraseP (·.name = name)) := by
      rw [splitLabels, hown]
      exact takeOwnLabel_eq_ok_iff.mpr ⟨⟨l, hfirst, hnumber⟩, hnan, rfl⟩
    exact ⟨ds, s, hpre, hs, exists_readSample?_iff.mpr ⟨hsamples, v, _, hsplit, hrest⟩⟩

/-! ## Payloads -/

/-- The payload cannot be read, so a push of it leaves the store as it is. -/
def Refused (payload : List UInt8) : Prop :=
  ∃ fault, read payload = .error fault ∧ ∀ (st : Store) (now : Instant) (injected : List Label),
    st.ingest now injected .text payload = (st, .error (.parse fault))

theorem refused_iff {payload : List UInt8} : Refused payload ↔ ¬ ∃ fs, read payload = .ok fs := by
  constructor
  · rintro ⟨fault, hread, -⟩ ⟨fs, hfs⟩
    cases hread.symm.trans hfs
  · intro h
    cases hread : read payload with
    | ok fs => exact absurd ⟨fs, hread⟩ h
    | error fault =>
      refine ⟨fault, hread, fun st now injected => ?_⟩
      have hformat : ExpositionFormat.text.read payload = .error fault := hread
      rw [Store.ingest, hformat]

/-- **Which repeated label names are refused.** Suppose that two labels of a sample line have the same name. Then every
text in which this line stands behind the given ones is refused as a whole, and nothing of it reaches the store, exactly
if the repetition is not that of the label which belongs to the sample. -/
theorem refuses_repeated_iff {pre : List (List Char)} {line : List Char} (hpre : ∀ l ∈ pre, '\n' ∉ l)
    (hline : '\n' ∉ line) (h : RepeatsLabel (Text.trim line)) :
    (∀ payload cs post, Utf8.decode payload = .ok cs → linesOf cs = pre ++ line :: post → Refused payload) ↔
      ¬ Slips (pre.map Text.trim) (Text.trim line) := by
  rw [← slips_iff h]
  constructor
  · rintro hrefused ⟨es, hes⟩
    have hlines : linesOf (['\n'].intercalate (pre ++ [line])) = pre ++ line :: [] := by
      refine List.splitOn_intercalate '\n' (fun l hl => ?_) (by simp)
      rcases List.mem_append.mp hl with hl | hl
      · exact hpre l hl
      · rwa [List.mem_singleton.mp hl]
    refine refused_iff.mp (hrefused _ _ [] (Utf8.decode_encode _) hlines) ⟨es.families, ?_⟩
    rw [read, Utf8.decode_encode]
    refine readText_eq_ok_iff.mpr ⟨es, ?_, rfl⟩
    rwa [hlines, List.map_append]
  · intro hslips payload cs post hcs hlines
    refine refused_iff.mpr ?_
    rintro ⟨fs, hfs⟩
    have htext : readText cs = .ok fs := by rwa [read, hcs] at hfs
    obtain ⟨es, hes, -⟩ := readText_eq_ok_iff.mp htext
    have hsplit : (linesOf cs).map Text.trim = pre.map Text.trim ++ [Text.trim line] ++ post.map Text.trim := by
      rw [hlines]
      simp
    rw [hsplit] at hes
    obtain ⟨ds, hds, -⟩ := Outcome.foldlM_append_eq_ok_iff.mp hes
    exact hslips ⟨ds, hds⟩

/-- The declaration of a histogram. -/
def latencyType : List Char := "# TYPE latency histogram".toList

/-- A bucket of the histogram with the given labels. -/
def latencyBucket (labels : String) : List Char := ("latency_bucket\x7b" ++ labels ++ "\x7d 3").toList

/-- A bucket that names its path twice is refused. -/
theorem refuses_repeated_iff_latencyBucket :
    let line := latencyBucket "le=\"1\",path=\"/a\",path=\"/b\""
    RepeatsLabel (Text.trim line) ∧ ∀ payload cs post, Utf8.decode payload = .ok cs →
      linesOf cs = [latencyType] ++ line :: post → Refused payload := by
  intro line
  have hread : SampleLine.read (Text.trim line) =
      .ok ⟨"latency_bucket", [⟨"le", "1"⟩, ⟨"path", "/a"⟩, ⟨"path", "/b"⟩], (3 : Nat)⟩ := by decide +kernel
  have hrepeats : RepeatsLabel (Text.trim line) := by
    refine ⟨by decide +kernel, fun s hs => ?_⟩
    cases hread.symm.trans hs
    decide
  refine ⟨hrepeats, (refuses_repeated_iff (by decide +kernel) (by decide +kernel) hrepeats).mpr ?_⟩
  rintro ⟨-, hs, hown, -, -, -, hrest⟩
  cases hread.symm.trans hs
  -- The path is named twice, whichever label is taken out first.
  cases hown with
  | bound => exact absurd hrest (by decide)
  | quantile => exact absurd hrest (by decide)

/-- A bucket that names its bound twice is read. -/
theorem repeated_bound_read :
    let line := latencyBucket "le=\"1\",le=\"2\""
    let cs := ['\n'].intercalate [latencyType, line]
    RepeatsLabel (Text.trim line) ∧ line ∈ linesOf cs ∧
      ∃ fs, read (Utf8.encode cs) = .ok fs ∧ fs.map Family.name = ["latency"] := by
  intro line cs
  have hread : SampleLine.read (Text.trim line) = .ok ⟨"latency_bucket", [⟨"le", "1"⟩, ⟨"le", "2"⟩], (3 : Nat)⟩ := by
    decide +kernel
  have hfamilies : (read (Utf8.encode cs)).toOption.map (List.map Family.name) = some ["latency"] := by decide +kernel
  refine ⟨⟨by decide +kernel, fun s hs => ?_⟩, by decide +kernel, ?_⟩
  · cases hread.symm.trans hs
    decide
  · cases hfs : read (Utf8.encode cs) with
    | error fault =>
      rw [hfs] at hfamilies
      cases hfamilies
    | ok fs =>
      rw [hfs] at hfamilies
      exact ⟨fs, rfl, Option.some.inj hfamilies⟩

end TextFormat
end MetricGateway
