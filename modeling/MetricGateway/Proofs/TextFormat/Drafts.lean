import MetricGateway.Proofs.Appearance
import MetricGateway.Proofs.Label.Order
import MetricGateway.Proofs.Outcome
import MetricGateway.Proofs.TextFormat.SampleLine
import MetricGateway.TextFormat.Reader

/-!
# What the lines of a text do to the drafts

A line leaves the drafts as they are or changes one of them: it gives it a help text, gives it a type, or adds a sample
(`Drafts.Change`, `change_of_readLine`). So

- every draft stands under a name of its own, which is not empty (`Drafts.Named`, `named_of_readLines`), and
- a property of drafts that holds at their start and that these changes keep (`Draft.Kept`) holds of every draft of a
  text that was read (`readLines_keeps`), so every family comes from a draft with the property
  (`exists_draft_of_read`).
-/

namespace MetricGateway

/-- The names of the labels can be read from a sample line. -/
def LabelSet.Spelled (s : LabelSet) : Prop := ∀ l ∈ s.toList, l.Spelled

namespace TextFormat

/-- The draft of a family, which is empty before the family was seen. -/
def Drafts.draft (ds : Drafts) (family : String) : Draft := (ds.lookup family).getD {}

theorem Drafts.type?_eq (ds : Drafts) (family : String) : ds.type? family = (ds.draft family).type := by
  unfold Drafts.type? Drafts.draft
  cases ds.lookup family <;> rfl

/-- A change of one draft changes no other one. -/
theorem Drafts.draft_alter (ds : Drafts) (name family : String) (f : Draft → Draft) :
    Drafts.draft (Appearance.alter name {} f ds) family =
      if name = family then f (ds.draft family) else ds.draft family := by
  rw [Drafts.draft, Appearance.lookup_alter]
  split
  next h => rw [h]; rfl
  next => rfl

/-- A draft with one more sample to come. Without a declared type it is untyped. -/
def Draft.opened (d : Draft) : Draft := { d with sampled := true, type := some (d.type.getD .untyped) }

/-- What a sample of the given kind can do to the draft of a family of the given type. -/
inductive Draft.Addition (d : Draft) (labels : LabelSet) (own value : Binary64) :
    MetricType → SampleKind → Draft → Prop
  | number {v : MetricValue Binary64} (hv : v = .counter value ∨ v = .gauge value ∨ v = .untyped value) :
      Addition d labels own value v.type .plain (d.addMetric labels v)
  | bucket : Addition d labels own value .histogram .bucket
      (d.onHistogram labels fun h => { h with buckets := h.buckets ++ [⟨own, value.toCount⟩] })
  | histogramSum : Addition d labels own value .histogram .sum
      (d.onHistogram labels fun h => { h with sampleSum := value })
  | histogramCount : Addition d labels own value .histogram .count
      (d.onHistogram labels fun h => { h with sampleCount := value.toCount })
  | quantile : Addition d labels own value .summary .quantile
      (d.onSummary labels fun s => { s with quantiles := s.quantiles ++ [⟨own, value⟩] })
  | summarySum : Addition d labels own value .summary .sum (d.onSummary labels fun s => { s with sampleSum := value })
  | summaryCount : Addition d labels own value .summary .count
      (d.onSummary labels fun s => { s with sampleCount := value.toCount })

theorem Draft.addition_of_add? {d d' : Draft} {type : MetricType} {kind : SampleKind} {labels : LabelSet}
    {own value : Binary64} (h : d.add? type kind labels own value = some d') :
    d.Addition labels own value type kind d' := by
  unfold Draft.add? at h
  split at h <;> cases h
  · exact .number (.inl rfl)
  · exact .number (.inr (.inl rfl))
  · exact .number (.inr (.inr rfl))
  · exact .bucket
  · exact .histogramSum
  · exact .histogramCount
  · exact .quantile
  · exact .summarySum
  · exact .summaryCount

/-- What a line can do to the drafts. -/
inductive Drafts.Change (ds : Drafts) : Drafts → Prop
  | help {name : String} {help : List Char} (hname : isMetricName name = true) (hhelp : settle help = help) :
      Change ds (Appearance.alter name {} (fun d => { d with help := some (String.ofList help) }) ds)
  | type {name : String} {type : MetricType} (hname : isMetricName name = true) (hnew : (ds.draft name).type = none) :
      Change ds (Appearance.alter name {} (fun d => { d with type := some type }) ds)
  | sample {sample family : String} {kind : SampleKind} {labels : LabelSet} {own value : Binary64} {d : Draft}
      (hsample : sample ≠ "") (hresolve : ds.resolve sample = (family, kind)) (hown : own.isNaN = false)
      (hlabels : labels.Spelled)
      (hadd : (ds.draft family).opened.Addition labels own value ((ds.draft family).type.getD .untyped) kind d) :
      Change ds (Appearance.alter family d (fun _ => d) ds)

/-! ## Comments -/

theorem isMetricName_of_checkName {name : List Char} {s : String} (h : checkName name = .ok s) :
    isMetricName s = true := by
  unfold checkName at h
  split at h
  next hname =>
    cases h
    rw [isMetricName, String.toList_ofList]
    exact hname
  next => cases h

theorem suffix_of_cutAt {p : Char → Bool} {cs a b : List Char} (h : Text.cutAt p cs = some (a, b)) : b <:+ cs := by
  unfold Text.cutAt at h
  split at h
  · cases h
  next c r hr =>
    cases h
    have hcons : (c :: b) <:+ cs := hr ▸ List.dropWhile_suffix _
    exact (List.suffix_cons c b).trans hcons

theorem change_of_readHelp {ds ds' : Drafts} {r : List Char} (hr : Text.trimEnd Text.isBlank r = r)
    (h : readHelp ds r = .ok ds') : ds.Change ds' := by
  unfold readHelp at h
  have hhelp : Text.trimEnd Text.isBlank ((Text.cutAt isGap r).getD (r, [])).2
      = ((Text.cutAt isGap r).getD (r, [])).2 := by
    cases hcut : Text.cutAt isGap r with
    | none => rfl
    | some e => exact Text.trimEnd_eq_self_of_suffix hr (suffix_of_cutAt hcut)
  obtain ⟨name, hname, h⟩ := Outcome.bind_eq_ok_iff.mp h
  dsimp only at h
  split at h
  · cases h
  · cases h
    exact .help (isMetricName_of_checkName hname) (settled_unescapeHelp hhelp)

theorem change_of_readType {ds ds' : Drafts} {r : List Char} (h : readType ds r = .ok ds') : ds.Change ds' := by
  unfold readType at h
  split at h
  next name type _ _ =>
    obtain ⟨name, hname, h⟩ := Outcome.bind_eq_ok_iff.mp h
    split at h
    · cases h
    next type _ =>
      dsimp only at h
      split at h
      · cases h
      next hn =>
        cases h
        exact .type (isMetricName_of_checkName hname) (by simpa [Drafts.draft] using hn)
  · cases h

/-! ## Samples -/

/-- The family of a sample has the name of the sample, or else it has a type already. -/
theorem resolve_eq_or (ds : Drafts) (sample : String) :
    (ds.resolve sample).1 = sample ∨ (ds.draft (ds.resolve sample).1).type ≠ none := by
  unfold Drafts.resolve
  split
  next found h =>
    obtain ⟨suffix, -, h⟩ := List.exists_of_findSome?_eq_some h
    unfold Drafts.suffixed? at h
    split at h
    · cases h
    · split at h
      next hbears =>
        cases h
        refine .inr fun hnone => ?_
        rw [Drafts.type?_eq, hnone] at hbears
        exact absurd hbears (by simp [bearsSuffix])
      next => cases h
  next => exact .inl rfl

theorem own_and_labels_of_splitLabels {s : SampleLine} {kind : SampleKind} {own : Binary64} {ls : List Label}
    (h : splitLabels s kind = .ok (own, ls)) : own.isNaN = false ∧ ∀ l ∈ ls, l ∈ s.labels := by
  unfold splitLabels at h
  split at h
  · cases h
    exact ⟨by decide, fun l hl => hl⟩
  · unfold takeOwnLabel at h
    split at h
    · cases h
    · split at h
      · cases h
      · split at h
        · cases h
        next hnan =>
          cases h
          exact ⟨by simpa using hnan, fun l hl => List.mem_of_mem_eraseP hl⟩

theorem change_of_addSample {ds ds' : Drafts} {s : SampleLine} {line : List Char} (hs : SampleLine.read line = .ok s)
    (h : ds.addSample s = .ok ds') : ds.Change ds' := by
  obtain ⟨hname, hspelled⟩ := spelled_of_read hs
  unfold Drafts.addSample at h
  generalize hresolve : ds.resolve s.name = found at h
  obtain ⟨family, kind⟩ := found
  dsimp only at h
  split at h
  · cases h
  next own ls hsplit =>
    obtain ⟨hown, hls⟩ := own_and_labels_of_splitLabels hsplit
    split at h
    · cases h
    next labels hlabels =>
      split at h
      · cases h
      next d hadd =>
        cases h
        rw [Drafts.type?_eq] at hadd
        refine .sample hname hresolve hown (fun l hl => ?_) (Draft.addition_of_add? hadd)
        exact hspelled l (hls l ((LabelSet.ofList?_eq_ok_iff.mp hlabels).mem_iff.mpr hl))

/-! ## Lines -/

theorem change_of_readLine {ds ds' : Drafts} {line : List Char} (h : readLine ds line = .ok ds') :
    ds' = ds ∨ ds.Change ds' := by
  have htrim : Text.trimEnd Text.isBlank (Text.trim line) = Text.trim line := Text.trimEnd_trimEnd _ _
  unfold readLine at h
  split at h
  · cases h
    exact .inl rfl
  next r hline =>
    have hr : Text.trimEnd Text.isBlank r = r :=
      Text.trimEnd_eq_self_of_suffix htrim (hline ▸ List.suffix_cons _ _)
    unfold readComment at h
    split at h
    · cases h
      exact .inl rfl
    next keyword rest hcut =>
      have hrest : Text.trimStart rest <:+ r :=
        (List.dropWhile_suffix _).trans ((suffix_of_cutAt hcut).trans (List.dropWhile_suffix _))
      split at h
      · exact .inr (change_of_readHelp (Text.trimEnd_eq_self_of_suffix hr hrest) h)
      · split at h
        · exact .inr (change_of_readType h)
        · cases h
          exact .inl rfl
  · obtain ⟨s, hs, h⟩ := Outcome.bind_eq_ok_iff.mp h
    exact .inr (change_of_addSample hs h)

/-- What every line keeps, a text keeps. -/
theorem readLines_invariant {I : Drafts → Prop} (hI : ∀ ds ds', I ds → Drafts.Change ds ds' → I ds') {number : Nat}
    {ds ds' : Drafts} {lines : List (List Char)} (hds : I ds) (h : readLines number ds lines = .ok ds') : I ds' := by
  induction lines generalizing number ds with
  | nil =>
    cases h
    exact hds
  | cons line lines ih =>
    unfold readLines at h
    split at h
    · cases h
    next ds₁ hl =>
      refine ih ?_ h
      rcases change_of_readLine hl with rfl | hchange
      · exact hds
      · exact hI ds ds₁ hds hchange

/-! ## Names -/

/-- The drafts stand under different names, and none of these is empty. -/
structure Drafts.Named (ds : Drafts) : Prop where
  nodup : (ds.map Prod.fst).Nodup
  ne : ∀ name ∈ ds.map Prod.fst, name ≠ ""

theorem Drafts.Named.alter {ds : Drafts} (h : ds.Named) {name : String} {initial : Draft} {f : Draft → Draft}
    (hname : name ∉ ds.map Prod.fst → name ≠ "") : Drafts.Named (Appearance.alter name initial f ds) where
  nodup := Appearance.nodup_alter initial f h.nodup
  ne n hn := by
    rcases Appearance.mem_map_fst_alter hn with hn | rfl
    · exact h.ne n hn
    · by_cases hmem : n ∈ ds.map Prod.fst
      · exact h.ne n hmem
      · exact hname hmem

theorem Drafts.Named.change {ds ds' : Drafts} (h : ds.Named) (hchange : ds.Change ds') : ds'.Named := by
  cases hchange with
  | help hname | type hname => exact h.alter fun _ => (ne_empty_of_isNameOver hname).1
  | @sample sample family _ _ _ _ _ hsample hresolve =>
    have hfamily := resolve_eq_or ds sample
    rw [hresolve] at hfamily
    refine h.alter fun hnew => ?_
    rcases hfamily with rfl | htype
    · exact hsample
    · refine absurd ?_ htype
      rw [Drafts.draft, Appearance.lookup_eq_none_iff.mpr hnew]
      rfl

theorem named_of_readLines {number : Nat} {ds : Drafts} {lines : List (List Char)}
    (h : readLines number [] lines = .ok ds) : ds.Named :=
  readLines_invariant (fun _ _ hds hchange => hds.change hchange) ⟨by simp, by simp⟩ h

/-! ## Drafts -/

/-- A property of drafts that every line of a text keeps. -/
structure Draft.Kept (p : Draft → Prop) : Prop where
  empty : p {}
  help : ∀ d help, p d → settle help = help → p { d with help := some (String.ofList help) }
  type : ∀ d type, p d → d.type = none → p { d with type := some type }
  sample : ∀ (d d' : Draft) labels own value kind, p d → own.isNaN = false → labels.Spelled →
    d.opened.Addition labels own value (d.type.getD .untyped) kind d' → p d'

variable {p : Draft → Prop} (hp : Draft.Kept p)
include hp

theorem Draft.Kept.draft {ds : Drafts} (hds : ∀ e ∈ ds, p e.2) (name : String) : p (ds.draft name) := by
  unfold Drafts.draft
  cases h : ds.lookup name with
  | none => exact hp.empty
  | some d => exact hds _ (Appearance.mem_of_lookup h)

theorem Draft.Kept.change {ds ds' : Drafts} (hds : ∀ e ∈ ds, p e.2) (h : ds.Change ds') : ∀ e ∈ ds', p e.2 := by
  intro e he
  cases h with
  | help hname hhelp =>
    rcases Appearance.mem_alter he with he | rfl
    · exact hds e he
    · exact hp.help _ _ (hp.draft hds _) hhelp
  | type hname hnew =>
    rcases Appearance.mem_alter he with he | rfl
    · exact hds e he
    · exact hp.type _ _ (hp.draft hds _) hnew
  | @sample _ family kind labels own value d _ _ hown hlabels hadd =>
    rcases Appearance.mem_alter he with he | rfl
    · exact hds e he
    · exact hp.sample _ d labels own value kind (hp.draft hds family) hown hlabels hadd

/-- Every draft of a text has what every line keeps. -/
theorem readLines_keeps {number : Nat} {ds : Drafts} {lines : List (List Char)}
    (h : readLines number [] lines = .ok ds) : ∀ e ∈ ds, p e.2 :=
  readLines_invariant (I := fun ds => ∀ e ∈ ds, p e.2) (fun _ _ hds hchange => hp.change hds hchange)
    (fun _ he => by cases he) h

/-- Every family of a text comes from a draft that has what every line keeps. -/
theorem exists_draft_of_read {payload : List UInt8} {fs : List Family} (h : read payload = .ok fs) {f : Family}
    (hf : f ∈ fs) : ∃ d name, p d ∧ d.family? name = some f := by
  unfold read at h
  split at h
  · cases h
  · obtain ⟨ds, hds, rfl⟩ := Outcome.map_eq_ok_iff.mp h
    obtain ⟨⟨name, d⟩, hd, hf⟩ := List.mem_filterMap.mp hf
    exact ⟨d, name, readLines_keeps hp hds _ hd, hf⟩

end TextFormat
end MetricGateway
