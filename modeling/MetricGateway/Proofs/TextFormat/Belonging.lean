import MetricGateway.Proofs.Text.Utf8
import MetricGateway.Proofs.TextFormat.Entries

/-!
# To which family a sample line contributes

A family has the type that a line declared (`type_of_declared`), and no other type but `untyped` without such a line
(`declared_of_type`). So whether a family claims the samples of a name is said by the lines in front of the sample
(`claims_iff_claimedIn`).

What a line contributes shows when it is left out. Then the drafts differ in one family from that line on
(`Drafts.DifferAt`), the one to which the sample belongs. A sample that bears the name of a family of single numbers
contributes one metric to it exactly if no histogram or summary claims the name, and otherwise it leaves this family
alone (`contributes_iff`).
-/

namespace MetricGateway

/-- The value of a single number of the given type. -/
def MetricType.number (type : MetricType) (v : Binary64) : MetricValue Binary64 :=
  match type with
  | .counter => .counter v
  | .gauge => .gauge v
  | _ => .untyped v

namespace TextFormat

/-! ## Declared types -/

/-- One of the lines, which have no blanks around them, declares the type of a family. -/
def DeclaredIn (lines : List (List Char)) (family : String) (type : MetricType) : Prop :=
  ∃ line ∈ lines, description? line = some (.type family type)

/-- The lines declare a histogram or a summary to which samples of this name belong. -/
inductive ClaimedIn (lines : List (List Char)) (sample : String) : Prop
  | histogram (base suffix : String) (hdeclared : DeclaredIn lines base .histogram)
    (hsuffix : suffix ∈ ["_bucket", "_sum", "_count"]) (hname : sample = base ++ suffix)
  | summary (base suffix : String) (hdeclared : DeclaredIn lines base .summary)
    (hsuffix : suffix ∈ ["_sum", "_count"]) (hname : sample = base ++ suffix)

/-- An entry keeps the type of a family. -/
theorem type_enter {ds : Drafts} {e : Entry} (hnew : e.New ds) {family : String} {type : MetricType}
    (h : (ds.draft family).type = some type) : ((e.enter ds).draft family).type = some type := by
  rw [Entry.draft_enter]
  split
  next hfamily =>
    cases e with
    | help => exact h
    | type family' type' =>
      cases hfamily
      cases h.symm.trans hnew
    | sample r =>
      rw [Entry.change, Draft.type_enter, h]
      rfl
  next => exact h

theorem type_of_foldlM {lines : List (List Char)} {ds es : Drafts} (hread : lines.foldlM readTrimmed ds = .ok es)
    {family : String} {type : MetricType} (h : (ds.draft family).type = some type) :
    (es.draft family).type = some type := by
  refine Outcome.foldlM_invariant (I := fun ds => (ds.draft family).type = some type) ?_ h hread
  intro ds line es hds hline
  rcases idle_or_entry_of_readTrimmed hline with ⟨-, rfl⟩ | ⟨-, e, -, hnew, rfl⟩
  · exact hds
  · exact type_enter hnew hds

/-- What a description makes is its own entry. -/
theorem entry?_of_description? (ds : Drafts) {line : List Char} {e : Entry} (h : description? line = some e) :
    ds.entry? line = some e := by
  rw [Drafts.entry?, if_neg (by simp [isSample_of_isDescription (isDescription_of_description? h)]), h]

theorem type_of_declared {lines : List (List Char)} {ds es : Drafts} (hread : lines.foldlM readTrimmed ds = .ok es)
    {family : String} {type : MetricType} (h : DeclaredIn lines family type) : (es.draft family).type = some type := by
  obtain ⟨line, hmem, hline⟩ := h
  induction lines generalizing ds with
  | nil => cases hmem
  | cons first lines ih =>
    obtain ⟨ds', hfirst, hrest⟩ := Outcome.foldlM_cons_eq_ok_iff.mp hread
    rcases List.mem_cons.mp hmem with rfl | hmem
    · have hspoken := isDescription_of_description? hline
      obtain ⟨e, he, -, rfl⟩ := (readTrimmed_eq_ok_iff_exists_entry (.inr hspoken)).mp hfirst
      cases (entry?_of_description? ds hline).symm.trans he
      refine type_of_foldlM hrest ?_
      rw [Entry.draft_enter]
      exact congrArg Draft.type (if_pos rfl)
    · exact ih hrest hmem

/-- An entry that gives a family a type other than `untyped` is a declaration. -/
theorem eq_type_of_type_enter {ds : Drafts} {e : Entry} {family : String} {type : MetricType}
    (h : ((e.enter ds).draft family).type = some type) :
    type = .untyped ∨ (ds.draft family).type = some type ∨ e = .type family type := by
  rw [Entry.draft_enter] at h
  split at h
  next hfamily =>
    cases e with
    | help => exact .inr (.inl h)
    | type =>
      cases hfamily
      cases h
      exact .inr (.inr rfl)
    | sample r =>
      rw [Entry.change, Draft.type_enter] at h
      cases htype : (ds.draft family).type with
      | none =>
        rw [htype] at h
        cases h
        exact .inl rfl
      | some type' =>
        rw [htype] at h
        exact .inr (.inl h)
  next => exact .inr (.inl h)

/-- A type that no line declared is `untyped`. -/
theorem declared_of_type {lines : List (List Char)} {ds es : Drafts} (hread : lines.foldlM readTrimmed ds = .ok es)
    {family : String} {type : MetricType} (h : (es.draft family).type = some type) :
    type = .untyped ∨ (ds.draft family).type = some type ∨ DeclaredIn lines family type := by
  induction lines generalizing ds with
  | nil =>
    cases hread
    exact .inr (.inl h)
  | cons first lines ih =>
    obtain ⟨ds', hfirst, hrest⟩ := Outcome.foldlM_cons_eq_ok_iff.mp hread
    rcases ih hrest with huntyped | hbefore | ⟨line, hmem, hline⟩
    · exact .inl huntyped
    · rcases idle_or_entry_of_readTrimmed hfirst with ⟨-, rfl⟩ | ⟨-, e, he, -, rfl⟩
      · exact .inr (.inl hbefore)
      · rcases eq_type_of_type_enter hbefore with huntyped | hbefore | rfl
        · exact .inl huntyped
        · exact .inr (.inl hbefore)
        · refine .inr (.inr ⟨first, List.mem_cons_self, ?_⟩)
          unfold Drafts.entry? at he
          split at he
          · cases hr : ds.reading? first <;> simp [hr] at he
          · exact he
    · exact .inr (.inr ⟨line, List.mem_cons_of_mem _ hmem, hline⟩)

/-- A family has a type other than `untyped` exactly if a line declares it. -/
theorem type_eq_some_iff {lines : List (List Char)} {ds : Drafts} (hread : lines.foldlM readTrimmed [] = .ok ds)
    {family : String} {type : MetricType} (hne : type ≠ .untyped) :
    (ds.draft family).type = some type ↔ DeclaredIn lines family type := by
  refine ⟨fun htype => ?_, type_of_declared hread⟩
  rcases declared_of_type hread htype with h | h | h
  · exact absurd h hne
  · cases h
  · exact h

theorem claims_iff_claimedIn {lines : List (List Char)} {ds : Drafts} (hread : lines.foldlM readTrimmed [] = .ok ds)
    (sample : String) : (∃ base, ds.Claims base sample) ↔ ClaimedIn lines sample := by
  constructor
  · rintro ⟨base, e, he, hname, hbears⟩
    rw [bearsSuffix, Bool.or_eq_true, Bool.and_eq_true, decide_eq_true_iff, decide_eq_true_iff, bne_iff_ne] at hbears
    rcases hbears with htype | ⟨htype, hkind⟩
    · have hsuffix : ∀ e ∈ sampleSuffixes, e.1 ∈ ["_bucket", "_sum", "_count"] := by decide
      exact .histogram base e.1 ((type_eq_some_iff hread (by decide)).mp htype) (hsuffix e he) hname
    · have hsuffix : ∀ e ∈ sampleSuffixes, e.2 ≠ .bucket → e.1 ∈ ["_sum", "_count"] := by decide
      exact .summary base e.1 ((type_eq_some_iff hread (by decide)).mp htype) (hsuffix e he hkind) hname
  · rintro (⟨base, suffix, hdeclared, hsuffix, rfl⟩ | ⟨base, suffix, hdeclared, hsuffix, rfl⟩)
    · have hkind : ∀ suffix ∈ ["_bucket", "_sum", "_count"], ∃ e ∈ sampleSuffixes, suffix = e.1 := by decide
      obtain ⟨e, he, rfl⟩ := hkind suffix hsuffix
      refine ⟨base, e, he, rfl, ?_⟩
      rw [type_of_declared hread hdeclared]
      rfl
    · have hkind : ∀ suffix ∈ ["_sum", "_count"], ∃ e ∈ sampleSuffixes, suffix = e.1 ∧
          bearsSuffix (some .summary) e.2 = true := by decide
      obtain ⟨e, he, rfl, hbears⟩ := hkind suffix hsuffix
      refine ⟨base, e, he, rfl, ?_⟩
      rw [type_of_declared hread hdeclared]
      exact hbears

/-! ## Drafts that differ in one family -/

/-- A relation between drafts that agree on their descriptions, which every entry keeps. -/
structure Draft.Stable (R : Draft → Draft → Prop) : Prop where
  help : ∀ {d e}, R d e → d.help = e.help
  type : ∀ {d e}, R d e → d.type = e.type
  change : ∀ (entry : Entry) {d e}, R d e → R (entry.change d) (entry.change e)

/-- The drafts of one family are related, and those of the others are the same. -/
def Drafts.DifferAt (family : String) (R : Draft → Draft → Prop) (ds es : Drafts) : Prop :=
  ∃ xs d e ys, family ∉ xs.map Prod.fst ∧ ds = xs ++ (family, d) :: ys ∧ es = xs ++ (family, e) :: ys ∧ R d e

section DifferAt

variable {family : String} {R : Draft → Draft → Prop} (hR : Draft.Stable R) {ds es : Drafts}
include hR

theorem Drafts.DifferAt.agree (h : ds.DifferAt family R es) : ds.Agree es := by
  obtain ⟨xs, d, e, ys, hxs, rfl, rfl, hde⟩ := h
  have hdraft : ∀ n, Drafts.draft (xs ++ (family, d) :: ys) n = Drafts.draft (xs ++ (family, e) :: ys) n ∨
      R (Drafts.draft (xs ++ (family, d) :: ys) n) (Drafts.draft (xs ++ (family, e) :: ys) n) := by
    intro n
    unfold Drafts.draft
    by_cases hn : family = n
    · subst hn
      rw [Appearance.lookup_append_cons hxs, Appearance.lookup_append_cons hxs]
      exact .inr hde
    · rw [Appearance.lookup_append_cons_of_ne hn d e]
      exact .inl rfl
  exact ⟨fun n => (hdraft n).elim (congrArg Draft.help) hR.help, fun n => (hdraft n).elim (congrArg Draft.type) hR.type⟩

theorem Drafts.DifferAt.enter (h : ds.DifferAt family R es) (entry : Entry) :
    (entry.enter ds).DifferAt family R (entry.enter es) := by
  obtain ⟨xs, d, e, ys, hxs, rfl, rfl, hde⟩ := h
  unfold Entry.enter
  by_cases hfamily : entry.family = family
  · subst hfamily
    refine ⟨xs, entry.change d, entry.change e, ys, hxs, ?_, ?_, hR.change entry hde⟩ <;>
      exact Appearance.alter_append_cons hxs _ _ _
  · obtain ⟨xs', ys', hxs', halter⟩ := Appearance.exists_alter_append_cons hxs hfamily {} entry.change
    exact ⟨xs', d, e, ys', hxs', halter d, halter e, hde⟩

/-- What is read after the one is read after the other, and the difference stays. -/
theorem Drafts.DifferAt.foldlM (h : ds.DifferAt family R es) {lines : List (List Char)} {ds' : Drafts}
    (hread : lines.foldlM readTrimmed ds = .ok ds') :
    ∃ es', lines.foldlM readTrimmed es = .ok es' ∧ ds'.DifferAt family R es' := by
  induction lines generalizing ds es with
  | nil =>
    cases hread
    exact ⟨es, rfl, h⟩
  | cons line lines ih =>
    obtain ⟨ds₁, hline, hrest⟩ := Outcome.foldlM_cons_eq_ok_iff.mp hread
    obtain ⟨es₁, hline', hdiffer⟩ : ∃ es₁, readTrimmed es line = .ok es₁ ∧ ds₁.DifferAt family R es₁ := by
      rcases (h.agree hR).readTrimmed hline with ⟨rfl, hline'⟩ | ⟨entry, rfl, hline'⟩
      · exact ⟨es, hline', h⟩
      · exact ⟨_, hline', h.enter hR entry⟩
    obtain ⟨es', hrest', hdiffer'⟩ := ih hdiffer hrest
    exact ⟨es', Outcome.foldlM_cons_eq_ok_iff.mpr ⟨es₁, hline', hrest'⟩, hdiffer'⟩

end DifferAt

/-- A reading makes a difference in its own family. -/
theorem Drafts.differAt_enter {ds : Drafts} {r : Reading} (htype : (ds.draft r.family).type ≠ none)
    {R : Draft → Draft → Prop} (h : R ((ds.draft r.family).enter r) (ds.draft r.family)) :
    (ds.enter r).DifferAt r.family R ds := by
  obtain ⟨d, hd⟩ : ∃ d, ds.lookup r.family = some d := by
    cases hlook : ds.lookup r.family with
    | none =>
      rw [Drafts.draft, hlook] at htype
      exact absurd rfl htype
    | some d => exact ⟨d, rfl⟩
  rw [Drafts.draft, hd] at h
  obtain ⟨xs, ys, rfl, hxs⟩ := Appearance.exists_append_of_lookup hd
  exact ⟨xs, _, d, ys, hxs, Appearance.alter_append_cons hxs _ _ _, rfl, h⟩

/-- The drafts have the same descriptions. -/
structure Draft.Described (d e : Draft) : Prop where
  help : d.help = e.help
  type : d.type = e.type

theorem Draft.Described.change {d e : Draft} (h : d.Described e) (entry : Entry) :
    (entry.change d).Described (entry.change e) := by
  cases entry with
  | help => exact ⟨rfl, h.type⟩
  | type => exact ⟨h.help, rfl⟩
  | sample r =>
    refine ⟨?_, ?_⟩
    · rw [Entry.change, Entry.change, Draft.help_enter, Draft.help_enter, h.help]
    · rw [Entry.change, Entry.change, Draft.type_enter, Draft.type_enter, h.type]

theorem Draft.stable_described : Draft.Stable Draft.Described := ⟨(·.help), (·.type), fun entry _ _ h => h.change entry⟩

/-- The first draft has one more metric than the second one. -/
structure Draft.Gains (m : Metric Binary64) (d e : Draft) : Prop extends Draft.Described d e where
  histograms : d.histograms = e.histograms
  summaries : d.summaries = e.summaries
  metrics : ∃ before behind, d.metrics = before ++ m :: behind ∧ e.metrics = before ++ behind

theorem Draft.stable_gains (m : Metric Binary64) : Draft.Stable (Draft.Gains m) where
  help h := h.help
  type h := h.type
  change entry d e h := by
    have hdescribed := h.toDescribed.change entry
    cases entry with
    | help | type =>
      exact { hdescribed with histograms := h.histograms, summaries := h.summaries, metrics := h.metrics }
    | sample r =>
      obtain ⟨before, behind, hd, he⟩ := h.metrics
      have hadded : ∀ m', ∃ before behind, d.metrics ++ [m'] = before ++ m :: behind ∧
          e.metrics ++ [m'] = before ++ behind := fun m' => ⟨before, behind ++ [m'], by simp [hd], by simp [he]⟩
      change Draft.Described (d.opened.enterAs (d.type.getD .untyped) r) (e.opened.enterAs (e.type.getD .untyped) r)
        at hdescribed
      show Draft.Gains m (d.opened.enterAs (d.type.getD .untyped) r) (e.opened.enterAs (e.type.getD .untyped) r)
      rw [← h.type] at hdescribed ⊢
      generalize d.type.getD .untyped = type at hdescribed ⊢
      cases type with
      | counter | gauge | untyped =>
        exact { hdescribed with histograms := h.histograms, summaries := h.summaries, metrics := hadded _ }
      | histogram =>
        have hgathered := congrArg (Appearance.alter r.labels noHistogram (r.part.onHistogram r.value)) h.histograms
        exact { hdescribed with histograms := hgathered, summaries := h.summaries, metrics := h.metrics }
      | summary =>
        have hgathered := congrArg (Appearance.alter r.labels noSummary (r.part.onSummary r.value)) h.summaries
        exact { hdescribed with histograms := h.histograms, summaries := hgathered, metrics := h.metrics }

/-- The first draft becomes the family of the second one with one more metric. -/
theorem Draft.Gains.family? {m : Metric Binary64} {d e : Draft} (h : d.Gains m e) (name : String) {type : MetricType}
    (htype : d.type = some type) : ∃ before behind,
      d.family? name = some ⟨name, d.help, type, before ++ m :: behind⟩ ∧
      e.family? name = if before ++ behind = [] then none else some ⟨name, d.help, type, before ++ behind⟩ := by
  obtain ⟨before, behind, hd, he⟩ := h.metrics
  obtain ⟨gathered, hd', he'⟩ : ∃ gathered, d.allMetrics = d.metrics ++ gathered ∧
      e.allMetrics = e.metrics ++ gathered := by
    refine ⟨_, List.append_assoc .., ?_⟩
    rw [h.histograms, h.summaries, Draft.allMetrics, List.append_assoc]
  rw [hd, List.append_assoc, List.cons_append] at hd'
  rw [he, List.append_assoc] at he'
  refine ⟨before, behind ++ gathered, ?_, ?_⟩
  · simp [Draft.family?, htype, hd']
  · simp [Draft.family?, ← h.type, ← h.help, htype, he']

/-- The families `fs` are those of `gs` with one more metric in the family of this name and type, which may be new. -/
def GainsMetric (name : String) (type : MetricType) (m : Metric Binary64) (gs fs : List Family) : Prop :=
  ∃ xs ys help before behind, fs = xs ++ ⟨name, help, type, before ++ m :: behind⟩ :: ys ∧
    gs = xs ++ (if before ++ behind = [] then [] else [⟨name, help, type, before ++ behind⟩]) ++ ys

theorem families_append_cons (xs ys : Drafts) (name : String) (d : Draft) :
    Drafts.families (xs ++ (name, d) :: ys) = xs.families ++ (d.family? name).toList ++ ys.families := by
  simp only [Drafts.families, List.filterMap_append, List.filterMap_cons, List.append_assoc]
  cases d.family? name <;> rfl

theorem Drafts.DifferAt.gainsMetric {ds es : Drafts} {name : String} {m : Metric Binary64}
    (h : ds.DifferAt name (Draft.Gains m) es) {type : MetricType} (htype : (ds.draft name).type = some type) :
    GainsMetric name type m es.families ds.families := by
  obtain ⟨xs, d, e, ys, hxs, rfl, rfl, hde⟩ := h
  rw [Drafts.draft, Appearance.lookup_append_cons hxs, Option.getD_some] at htype
  obtain ⟨before, behind, hd, he⟩ := hde.family? name htype
  refine ⟨Drafts.families xs, Drafts.families ys, d.help, before, behind, ?_, ?_⟩
  · rw [families_append_cons, hd, List.append_assoc]
    rfl
  · rw [families_append_cons, he]
    split <;> rfl

/-- The families of other names are the same. -/
theorem Drafts.DifferAt.mem_families_iff {ds es : Drafts} {family : String} {R : Draft → Draft → Prop}
    (h : ds.DifferAt family R es) {f : Family} (hf : f.name ≠ family) : f ∈ ds.families ↔ f ∈ es.families := by
  obtain ⟨xs, d, e, ys, -, rfl, rfl, -⟩ := h
  have hother : ∀ d : Draft, d.family? family ≠ some f := by
    intro d hd
    obtain ⟨-, -, hfam⟩ := Draft.family?_eq_some hd
    exact hf (by rw [hfam])
  simp [families_append_cons, hother]

/-- A metric is gained by a family that is not the same with and without it. -/
theorem not_gainsMetric {name : String} {type : MetricType} {m : Metric Binary64} {gs fs : List Family}
    (hnames : (fs.map Family.name).Nodup) (hsame : ∀ f : Family, f.name = name → (f ∈ gs ↔ f ∈ fs)) :
    ¬ GainsMetric name type m gs fs := by
  rintro ⟨xs, ys, help, before, behind, rfl, rfl⟩
  rw [List.map_append, List.map_cons, List.nodup_middle, List.nodup_cons, List.mem_append, not_or] at hnames
  have hmem := (hsame ⟨name, help, type, before ++ m :: behind⟩ rfl).mpr (by simp)
  rcases List.mem_append.mp hmem with hmem | hmem
  · rcases List.mem_append.mp hmem with hmem | hmem
    · exact hnames.1.1 (List.mem_map_of_mem hmem)
    · split at hmem
      · cases hmem
      · have hmetrics := congrArg (List.length ∘ Family.metrics) (List.mem_singleton.mp hmem)
        simp at hmetrics
  · exact hnames.1.2 (List.mem_map_of_mem hmem)

/-! ## Leaving out a sample line -/

theorem readText_eq_ok_iff {cs : List Char} {fs : List Family} : readText cs = .ok fs ↔
    ∃ ds, ((linesOf cs).map Text.trim).foldlM readTrimmed [] = .ok ds ∧ ds.families = fs := by
  unfold readText
  rw [Outcome.map_eq_ok_iff]
  simp only [readLines_eq_ok_iff, foldlM_readLine]

theorem linesOf_intercalate {cs : List Char} {lines : List (List Char)} (hlines : ∀ line ∈ lines, line ∈ linesOf cs)
    (hne : lines ≠ []) : linesOf (['\n'].intercalate lines) = lines :=
  List.splitOn_intercalate '\n' (fun line hline => Text.not_mem_of_mem_splitOn (hlines line hline)) hne

/-- A sample adds a metric to a family of single numbers. -/
theorem Draft.gains_enter {d : Draft} {type : MetricType} (htype : d.type = some type)
    (hplain : type = .counter ∨ type = .gauge ∨ type = .untyped) (r : Reading) :
    Draft.Gains { labels := r.labels, value := type.number r.value } (d.enter r) d := by
  have henter : d.enter r = d.opened.addMetric r.labels (type.number r.value) := by
    rw [Draft.enter, htype]
    rcases hplain with rfl | rfl | rfl <;> rfl
  rw [henter]
  exact ⟨⟨rfl, congrArg (fun t : Option MetricType => some (t.getD .untyped)) htype |>.trans htype.symm⟩, rfl, rfl,
    d.metrics, [], rfl, (List.append_nil _).symm⟩

/-- When the line of a sample is left out of the lines that were read, the drafts differ in the family of the sample. -/
theorem exists_differAt {pre post : List (List Char)} {line : List Char} (hsample : isSample line = true) {es : Drafts}
    (hread : (pre ++ line :: post).foldlM readTrimmed [] = .ok es) :
    ∃ ds r, pre.foldlM readTrimmed [] = .ok ds ∧ ds.reading? line = some r ∧
      ∀ R, Draft.Stable R → (ds.draft r.family).type ≠ none → R ((ds.draft r.family).enter r) (ds.draft r.family) →
        ∃ es', (pre ++ post).foldlM readTrimmed [] = .ok es' ∧ es.DifferAt r.family R es' := by
  obtain ⟨ds, hpre, hrest⟩ := Outcome.foldlM_append_eq_ok_iff.mp hread
  obtain ⟨ds', hline, hpost⟩ := Outcome.foldlM_cons_eq_ok_iff.mp hrest
  obtain ⟨r, hr, rfl⟩ := (readTrimmed_eq_ok_iff hsample).mp hline
  refine ⟨ds, r, hpre, hr, fun R hR htype hdiffer => ?_⟩
  obtain ⟨es', hpost', hdiffer'⟩ := (Drafts.differAt_enter htype hdiffer).foldlM hR hpost
  exact ⟨es', Outcome.foldlM_append_eq_ok_iff.mpr ⟨ds, hpre, hpost'⟩, hdiffer'⟩

section Lines

variable {pre post : List (List Char)} {line : List Char} (hsample : isSample line = true) {s : SampleLine}
  (hs : SampleLine.read line = .ok s) {es : Drafts} (hread : (pre ++ line :: post).foldlM readTrimmed [] = .ok es)
include hsample hs hread

theorem gains_of_unclaimed {type : MetricType} (hdeclared : DeclaredIn pre s.name type)
    (hplain : type = .counter ∨ type = .gauge ∨ type = .untyped) (hfree : ¬ ClaimedIn pre s.name) :
    ∃ es' m, (pre ++ post).foldlM readTrimmed [] = .ok es' ∧ LabelSet.ofList? s.labels = .ok m.labels ∧
      m.value = type.number s.value ∧ m.observations = 1 ∧ GainsMetric s.name type m es'.families es.families := by
  obtain ⟨ds, r, hpre, hr, hwithout⟩ := exists_differAt hsample hread
  have htype : (ds.draft s.name).type = some type := type_of_declared hpre hdeclared
  have hresolve : ds.resolve s.name = (s.name, .plain) := by
    rw [resolve_of_unclaimed fun base hclaims => hfree ((claims_iff_claimedIn hpre _).mp ⟨base, hclaims⟩), htype,
      if_neg (by rcases hplain with rfl | rfl | rfl <;> decide)]
  rw [Drafts.reading?, hs] at hr
  obtain ⟨-, own, ls, hsplit, hlabels, hreading⟩ := Drafts.readSample?_eq_some_iff.mp hr
  rw [hresolve] at hsplit hreading
  cases hsplit
  have hfamily : r.family = s.name := by rw [hreading]
  have hvalue : r.value = s.value := by rw [hreading]
  rw [← hfamily] at htype ⊢
  obtain ⟨es', hes', hdiffer⟩ := hwithout _ (Draft.stable_gains _) (by simp [htype]) (Draft.gains_enter htype hplain r)
  refine ⟨es', _, hes', LabelSet.ofList?_eq_ok_iff.mpr hlabels, by rw [hvalue], rfl, hdiffer.gainsMetric ?_⟩
  obtain ⟨declaration, hmem, hdeclaration⟩ := hdeclared
  rw [hfamily]
  exact type_of_declared hread ⟨declaration, List.mem_append_left _ hmem, hdeclaration⟩

/-- A sample that is claimed makes a difference in one family only, which is not the one of its name. -/
theorem exists_same_of_claimed (hclaimed : ClaimedIn pre s.name) :
    ∃ es' base, (pre ++ post).foldlM readTrimmed [] = .ok es' ∧ base ≠ s.name ∧
      ∀ f : Family, f.name ≠ base → (f ∈ es'.families ↔ f ∈ es.families) := by
  obtain ⟨ds, r, hpre, hr, hwithout⟩ := exists_differAt hsample hread
  obtain ⟨base, e, he, hname, hbears⟩ := (claims_iff_claimedIn hpre _).mpr hclaimed
  rw [Drafts.reading?, hs] at hr
  obtain ⟨-, own, ls, -, -, hreading⟩ := Drafts.readSample?_eq_some_iff.mp hr
  have hfamily : r.family = base := by
    rw [hreading, hname, resolve_append he hbears]
  have htype : ∃ type, (ds.draft r.family).type = some type := by
    rw [hfamily]
    cases htype : (ds.draft base).type with
    | none =>
      rw [htype] at hbears
      cases hbears
    | some type => exact ⟨type, rfl⟩
  obtain ⟨type, htype⟩ := htype
  have hdescribed : ((ds.draft r.family).enter r).Described (ds.draft r.family) :=
    ⟨Draft.help_enter _ r, by rw [Draft.type_enter, htype]; rfl⟩
  obtain ⟨es', hes', hdiffer⟩ := hwithout _ Draft.stable_described (by simp [htype]) hdescribed
  refine ⟨es', base, hes', ?_, fun f hf => (hdiffer.mem_families_iff (hfamily ▸ hf)).symm⟩
  rw [hname]
  exact (append_suffix_ne he).symm

end Lines

/-- The sample adds one metric to the family of its name: what is read from the lines around it lacks this metric and
nothing else. -/
def Contributes (pre post : List (List Char)) (s : SampleLine) (type : MetricType) (fs : List Family) : Prop :=
  ∃ gs m, read (Utf8.encode (['\n'].intercalate (pre ++ post))) = .ok gs ∧
    LabelSet.ofList? s.labels = .ok m.labels ∧ m.value = type.number s.value ∧ m.observations = 1 ∧
    GainsMetric s.name type m gs fs

/-- The sample leaves the families of a name alone: they are the same in what is read from the lines around it. -/
def Spares (pre post : List (List Char)) (family : String) (fs : List Family) : Prop :=
  ∃ gs, read (Utf8.encode (['\n'].intercalate (pre ++ post))) = .ok gs ∧
    ∀ f : Family, f.name = family → (f ∈ gs ↔ f ∈ fs)

/-- **To which family a sample belongs.** A sample of a text that is read may bear the name of a family that a line in
front of it declares a counter, a gauge or untyped. Then its value becomes one metric of this family and changes
nothing else exactly if the lines in front of it declare no histogram or summary to which samples of this name
belong. If they do, it leaves all families alone but one, which is not the family of its name. -/
theorem contributes_iff {payload : List UInt8} {cs : List Char} (hcs : Utf8.decode payload = .ok cs) {fs : List Family}
    (hread : read payload = .ok fs) {pre post : List (List Char)} {line : List Char}
    (hlines : linesOf cs = pre ++ line :: post) (hsample : isSample (Text.trim line) = true) {s : SampleLine}
    (hs : SampleLine.read (Text.trim line) = .ok s) {type : MetricType}
    (hdeclared : DeclaredIn (pre.map Text.trim) s.name type)
    (hplain : type = .counter ∨ type = .gauge ∨ type = .untyped) :
    (Contributes pre post s type fs ↔ ¬ ClaimedIn (pre.map Text.trim) s.name) ∧
      (ClaimedIn (pre.map Text.trim) s.name →
        ∃ base, base ≠ s.name ∧ ∀ family, family ≠ base → Spares pre post family fs) := by
  obtain ⟨hnames, -⟩ := textual_of_read hread
  have htext : readText cs = .ok fs := by rwa [read, hcs] at hread
  obtain ⟨es, hes, rfl⟩ := readText_eq_ok_iff.mp htext
  rw [hlines, List.map_append, List.map_cons] at hes
  have hne : pre ++ post ≠ [] := by
    obtain ⟨declaration, hmem, -⟩ := hdeclared
    have hpre : pre ≠ [] := by
      rintro rfl
      cases hmem
    simp [hpre]
  have hmem : ∀ l ∈ pre ++ post, l ∈ linesOf cs := by
    intro l hl
    rw [hlines, List.mem_append, List.mem_cons]
    exact (List.mem_append.mp hl).imp id .inr
  have hwithout : ∀ {es' : Drafts}, (pre.map Text.trim ++ post.map Text.trim).foldlM readTrimmed [] = .ok es' →
      read (Utf8.encode (['\n'].intercalate (pre ++ post))) = .ok es'.families := by
    intro es' hes'
    rw [read, Utf8.decode_encode]
    refine readText_eq_ok_iff.mpr ⟨es', ?_, rfl⟩
    rw [linesOf_intercalate hmem hne, List.map_append]
    exact hes'
  have hspares : ClaimedIn (pre.map Text.trim) s.name →
      ∃ base, base ≠ s.name ∧ ∀ family, family ≠ base → Spares pre post family es.families := by
    intro hclaimed
    obtain ⟨es', base, hes', hbase, hsame⟩ := exists_same_of_claimed hsample hs hes hclaimed
    exact ⟨base, hbase, fun family hfamily => ⟨_, hwithout hes', fun f hf => hsame f (hf ▸ hfamily)⟩⟩
  refine ⟨⟨?_, fun hfree => ?_⟩, hspares⟩
  · rintro ⟨gs, m, hgs, -, -, -, hgains⟩ hclaimed
    obtain ⟨base, hbase, hother⟩ := hspares hclaimed
    obtain ⟨gs', hgs', hsame⟩ := hother s.name hbase.symm
    cases hgs'.symm.trans hgs
    exact not_gainsMetric hnames hsame hgains
  · obtain ⟨es', m, hes', hlabels, hvalue, hobservations, hgains⟩ :=
      gains_of_unclaimed hsample hs hes hdeclared hplain hfree
    exact ⟨_, m, hwithout hes', hlabels, hvalue, hobservations, hgains⟩

/-- A text with a histogram and a counter of the given name. -/
def counterText (name : String) : List UInt8 :=
  Utf8.bytesOf ("# TYPE x histogram\n# TYPE " ++ name ++ " counter\n" ++ name ++ " 5\nx_sum 1")

/-- The lines of the text in front of the sample of the counter. -/
def counterDeclarations (name : String) : List (List Char) :=
  ["# TYPE x histogram", "# TYPE " ++ name ++ " counter"].map String.toList

/-- The counter `y_count` gets its sample, since its name does not start with that of the histogram. -/
theorem contributes_iff_counterText :
    ∃ fs, read (counterText "y_count") = .ok fs ∧ fs.map Family.name = ["x", "y_count"] ∧
      Contributes (counterDeclarations "y_count") ["x_sum 1".toList] ⟨"y_count", [], (5 : Nat)⟩ .counter fs := by
  have hread : (read (counterText "y_count")).toOption.map (List.map Family.name) = some ["x", "y_count"] := by
    decide +kernel
  have hdescriptions : ((counterDeclarations "y_count").map Text.trim).map description? =
      [some (.type "x" .histogram), some (.type "y_count" .counter)] := rfl
  have hdeclared : ∀ base type, DeclaredIn ((counterDeclarations "y_count").map Text.trim) base type →
      base = "x" ∨ type = .counter := by
    rintro base type ⟨line, hmem, hline⟩
    have hmem' := List.mem_map_of_mem (f := description?) hmem
    rw [hdescriptions, hline] at hmem'
    rcases List.mem_pair.mp hmem' with h | h <;> cases h
    · exact .inl rfl
    · exact .inr rfl
  have hfree : ¬ ClaimedIn ((counterDeclarations "y_count").map Text.trim) "y_count" := by
    rintro (⟨base, suffix, hbase, hsuffix, hname⟩ | ⟨base, suffix, hbase, hsuffix, hname⟩) <;>
      obtain rfl | h := hdeclared base _ hbase
    · revert suffix
      decide
    · cases h
    · revert suffix
      decide
    · cases h
  cases hfs : read (counterText "y_count") with
  | error fault =>
    rw [hfs] at hread
    cases hread
  | ok fs =>
    rw [hfs] at hread
    refine ⟨fs, rfl, Option.some.inj hread, ?_⟩
    have hsample : SampleLine.read (Text.trim "y_count 5".toList) = .ok ⟨"y_count", [], (5 : Nat)⟩ := by decide +kernel
    exact (contributes_iff (Utf8.decode_encode _) hfs (by decide +kernel) (by decide +kernel) hsample
      ⟨"# TYPE y_count counter".toList, by decide +kernel, rfl⟩ (.inl rfl)).1.mpr hfree

/-- The counter `x_count` is declared as well, but its sample goes to the histogram. -/
theorem not_contributes_counterText :
    let pre := counterDeclarations "x_count"
    let line := "x_count 5".toList
    let post := ["x_sum 1".toList]
    let s : SampleLine := ⟨"x_count", [], (5 : Nat)⟩
    ∃ cs fs, Utf8.decode (counterText "x_count") = .ok cs ∧ read (counterText "x_count") = .ok fs ∧
      linesOf cs = pre ++ line :: post ∧ isSample (Text.trim line) = true ∧ SampleLine.read (Text.trim line) = .ok s ∧
      DeclaredIn (pre.map Text.trim) s.name .counter ∧ fs.map Family.name = ["x"] ∧
      ¬ Contributes pre post s .counter fs := by
  intro pre line post s
  have hread : (read (counterText "x_count")).toOption.map (List.map Family.name) = some ["x"] := by
    decide +kernel
  cases hfs : read (counterText "x_count") with
  | error fault =>
    rw [hfs] at hread
    cases hread
  | ok fs =>
    rw [hfs] at hread
    have hnames : fs.map Family.name = ["x"] := Option.some.inj hread
    refine ⟨_, fs, Utf8.decode_encode _, rfl, by decide +kernel, by decide +kernel, by decide +kernel,
      ⟨"# TYPE x_count counter".toList, by decide +kernel, rfl⟩, hnames, ?_⟩
    rintro ⟨-, m, -, -, -, -, xs, ys, help, before, behind, rfl, -⟩
    have hmem : "x_count" ∈ ["x"] := by
      rw [← hnames]
      simp [s]
    simp at hmem

end TextFormat
end MetricGateway
