import MetricGateway.Proofs.TextFormat.LabelOrder
import MetricGateway.Proofs.TextFormat.Resolve
import MetricGateway.Proofs.TextFormat.Samples

/-!
# What a sample line adds

Once the types of the families are known, a sample line says by itself what it adds: a value at a *place*, which is a
family, a label set and a part of a metric (`Drafts.reading?`). Adding it leaves the types as they are, so the sample
lines of a text that come after all its descriptions add their readings one after the other
(`foldlM_readTrimmed_eq_ok_iff`).
-/

namespace MetricGateway.TextFormat

/-- The part of a metric that a sample gives. A bucket and a quantile bear their number. -/
inductive Part
  | number
  | bucket (bound : Binary64)
  | sum
  | count
  | quantile (share : Binary64)
  deriving DecidableEq

/-- Where a sample belongs. -/
structure Place where
  family : String
  labels : LabelSet
  part : Part
  deriving DecidableEq

/-- A value at its place. -/
structure Reading extends Place where
  value : Binary64

/-- Enters the value of a part into a histogram. -/
def Part.onHistogram (part : Part) (value : Binary64) (h : Histogram Binary64) : Histogram Binary64 :=
  match part with
  | .bucket bound => { h with buckets := h.buckets ++ [⟨bound, value.toCount⟩] }
  | .sum => { h with sampleSum := value }
  | .count => { h with sampleCount := value.toCount }
  | _ => h

/-- Enters the value of a part into a summary. -/
def Part.onSummary (part : Part) (value : Binary64) (s : Summary Binary64) : Summary Binary64 :=
  match part with
  | .quantile share => { s with quantiles := s.quantiles ++ [⟨share, value⟩] }
  | .sum => { s with sampleSum := value }
  | .count => { s with sampleCount := value.toCount }
  | _ => s

/-- The part that a sample of a kind gives, which bears the number of the label that belongs to the sample. -/
def SampleKind.part (own : Binary64) : SampleKind → Part
  | .plain => .number
  | .bucket => .bucket own
  | .sum => .sum
  | .count => .count
  | .quantile => .quantile own

/-- Whether families of a type have samples of a kind. -/
def hasSamples : MetricType → SampleKind → Bool
  | .counter, kind | .gauge, kind | .untyped, kind => kind = .plain
  | .histogram, kind => kind = .bucket ∨ kind = .sum ∨ kind = .count
  | .summary, kind => kind = .quantile ∨ kind = .sum ∨ kind = .count

/-- Enters a reading into a draft of the given type. -/
def Draft.enterAs (d : Draft) (type : MetricType) (r : Reading) : Draft :=
  match type with
  | .counter => d.addMetric r.labels (.counter r.value)
  | .gauge => d.addMetric r.labels (.gauge r.value)
  | .untyped => d.addMetric r.labels (.untyped r.value)
  | .histogram => d.onHistogram r.labels (r.part.onHistogram r.value)
  | .summary => d.onSummary r.labels (r.part.onSummary r.value)

theorem Draft.add?_eq (d : Draft) (type : MetricType) (kind : SampleKind) (family : String) (labels : LabelSet)
    (own value : Binary64) : d.add? type kind labels own value =
      if hasSamples type kind then some (d.enterAs type ⟨⟨family, labels, kind.part own⟩, value⟩) else none := by
  cases type <;> cases kind <;> rfl

/-- Enters a reading into a draft. -/
def Draft.enter (d : Draft) (r : Reading) : Draft := d.opened.enterAs (d.type.getD .untyped) r

theorem Draft.type_enterAs (d : Draft) (type : MetricType) (r : Reading) : (d.enterAs type r).type = d.type := by
  cases type <;> rfl

theorem Draft.type_enter (d : Draft) (r : Reading) : (d.enter r).type = some (d.type.getD .untyped) := by
  rw [Draft.enter, Draft.type_enterAs]
  rfl

theorem Draft.help_enter (d : Draft) (r : Reading) : (d.enter r).help = d.help := by
  unfold Draft.enter
  cases d.type.getD .untyped <;> rfl

namespace Drafts

/-- The type of a family, which is untyped unless it was declared. -/
def typeOf (ds : Drafts) (family : String) : MetricType := (ds.draft family).type.getD .untyped

/-- What a sample adds, if it can be added. -/
def readSample? (ds : Drafts) (s : SampleLine) : Option Reading :=
  let (family, kind) := ds.resolve s.name
  match splitLabels s kind with
  | .error _ => none
  | .ok (own, labels) =>
    match LabelSet.ofList? labels with
    | .error _ => none
    | .ok labels =>
      if hasSamples (ds.typeOf family) kind then some ⟨⟨family, labels, kind.part own⟩, s.value⟩ else none

/-- What a sample line adds, if it can be read and added. -/
def reading? (ds : Drafts) (line : List Char) : Option Reading :=
  (SampleLine.read line).toOption.bind ds.readSample?

/-- Enters a reading into the draft of its family. -/
def enter (ds : Drafts) (r : Reading) : Drafts := Appearance.alter r.family {} (·.enter r) ds

theorem enter_eq (ds : Drafts) (r : Reading) :
    ds.enter r = Appearance.alter r.family ((ds.draft r.family).enter r) (fun _ => (ds.draft r.family).enter r) ds :=
  Appearance.alter_eq _ _

theorem addSample_eq_ok_iff {ds es : Drafts} {s : SampleLine} :
    ds.addSample s = .ok es ↔ ∃ r, ds.readSample? s = some r ∧ es = ds.enter r := by
  unfold addSample readSample?
  generalize ds.resolve s.name = found
  obtain ⟨family, kind⟩ := found
  dsimp only
  cases splitLabels s kind with
  | error e => simp
  | ok x =>
    obtain ⟨own, ls⟩ := x
    dsimp only
    cases LabelSet.ofList? ls with
    | error e => simp
    | ok labels =>
      have hopened : ({ (ds.lookup family).getD {} with
          sampled := true, type := some ((ds.type? family).getD .untyped) } : Draft) = (ds.draft family).opened := by
        rw [type?_eq]
        rfl
      have henter := ds.enter_eq ⟨⟨family, labels, kind.part own⟩, s.value⟩
      dsimp only
      rw [hopened, Draft.add?_eq _ _ _ family, type?_eq, ← typeOf]
      by_cases hkind : hasSamples (ds.typeOf family) kind = true
      · rw [if_pos hkind, if_pos hkind]
        simp only [Except.ok.injEq, Option.some.injEq]
        constructor
        · rintro rfl
          exact ⟨_, rfl, henter.symm⟩
        · rintro ⟨_, rfl, rfl⟩
          exact henter.symm
      · rw [if_neg hkind, if_neg hkind]
        simp

/-! ## Types -/

theorem draft_enter (ds : Drafts) (r : Reading) (family : String) :
    (ds.enter r).draft family = if r.family = family then (ds.draft family).enter r else ds.draft family :=
  ds.draft_alter r.family family (·.enter r)

theorem typeOf_enter (ds : Drafts) (r : Reading) : (ds.enter r).typeOf = ds.typeOf := by
  funext family
  unfold typeOf
  rw [draft_enter]
  split
  next => rw [Draft.type_enter]; rfl
  next => rfl

/-- The family of a sample depends on the types of the families only. -/
theorem resolve_congr {ds es : Drafts} (h : ds.typeOf = es.typeOf) : ds.resolve = es.resolve := by
  have hbears : ∀ type kind, bearsSuffix type kind = bearsSuffix (some (type.getD .untyped)) kind := by
    intro type kind
    cases type <;> rfl
  have hsuffixed : ds.suffixed? = es.suffixed? := by
    funext sample suffix
    unfold suffixed?
    split
    · rfl
    next base _ =>
      rw [hbears, hbears (es.type? _), type?_eq, type?_eq, ← typeOf, ← typeOf, h]
  have hsummary : ∀ (fs : Drafts) family, fs.type? family = some .summary ↔ fs.typeOf family = .summary := by
    intro fs family
    rw [type?_eq, typeOf]
    cases (fs.draft family).type <;> simp
  funext sample
  unfold resolve
  rw [hsuffixed]
  simp only [hsummary, h]

theorem reading?_congr {ds es : Drafts} (h : ds.typeOf = es.typeOf) : ds.reading? = es.reading? := by
  funext line
  unfold reading?
  congr 1
  unfold readSample?
  rw [resolve_congr h, h]

end Drafts

/-! ## Labels in another order -/

theorem splitLabels_of_perm {s : SampleLine} {ls : List Label} (hls : s.labels.Perm ls)
    (hnames : (s.labels.map Label.name).Nodup) {kind : SampleKind} {own : Binary64} {rest : List Label}
    (h : splitLabels s kind = .ok (own, rest)) :
    ∃ rest', rest.Perm rest' ∧ splitLabels { s with labels := ls } kind = .ok (own, rest') := by
  unfold splitLabels at h ⊢
  split at h
  next =>
    cases h
    exact ⟨ls, hls, rfl⟩
  next name _ =>
    have hne : s.labels.Pairwise fun a b => a.name ≠ b.name := List.pairwise_map.mp hnames
    have hfind : ls.find? (·.name = name) = s.labels.find? (·.name = name) :=
      Sorted.lookup?_congr (hls.pairwise hne Ne.symm) hne fun _ => hls.mem_iff.symm
    unfold takeOwnLabel at h ⊢
    dsimp only
    rw [hfind]
    split at h
    · cases h
    · split at h
      · cases h
      · split at h
        · cases h
        next hnan =>
          cases h
          refine ⟨ls.eraseP (·.name = name), hls.eraseP _ (hne.imp fun {a b} hab ha hb => ?_), if_neg hnan⟩
          exact hab ((of_decide_eq_true ha).trans (of_decide_eq_true hb).symm)

namespace Drafts

theorem readSample?_eq_some_iff {ds : Drafts} {s : SampleLine} {r : Reading} :
    ds.readSample? s = some r ↔ hasSamples (ds.typeOf r.family) (ds.resolve s.name).2 = true ∧
      ∃ own ls, splitLabels s (ds.resolve s.name).2 = .ok (own, ls) ∧ ls.Perm r.labels.toList ∧
        r = ⟨⟨(ds.resolve s.name).1, r.labels, (ds.resolve s.name).2.part own⟩, s.value⟩ := by
  unfold readSample?
  generalize ds.resolve s.name = found
  obtain ⟨family, kind⟩ := found
  dsimp only
  constructor
  · intro h
    split at h
    · cases h
    next own ls hsplit =>
      split at h
      · cases h
      next labels hlabels =>
        split at h
        next hkind =>
          cases h
          exact ⟨hkind, own, ls, hsplit, LabelSet.ofList?_eq_ok_iff.mp hlabels, rfl⟩
        next => cases h
  · rintro ⟨hkind, own, ls, hsplit, hlabels, hr⟩
    have hfamily : r.family = family := by rw [hr]
    rw [hsplit]
    dsimp only
    rw [LabelSet.ofList?_eq_ok_iff.mpr hlabels]
    dsimp only
    rw [if_pos (hfamily ▸ hkind), ← hr]

theorem reading?_of_reordered {ds : Drafts} {line line' : List Char} (h : Reordered line line')
    (hnames : ∀ s, SampleLine.read line = .ok s → (s.labels.map Label.name).Nodup) {r : Reading}
    (hr : ds.reading? line = some r) : ds.reading? line' = some r := by
  unfold reading? at hr ⊢
  cases hs : SampleLine.read line with
  | error e =>
    rw [hs] at hr
    cases hr
  | ok s =>
    obtain ⟨ls, hls, hs'⟩ := h.read hs
    rw [hs] at hr
    rw [hs']
    obtain ⟨hkind, own, rest, hsplit, hrest, hr⟩ := readSample?_eq_some_iff.mp hr
    obtain ⟨rest', hperm, hsplit'⟩ := splitLabels_of_perm hls (hnames s hs) hsplit
    exact readSample?_eq_some_iff.mpr ⟨hkind, own, rest', hsplit', hperm.symm.trans hrest, hr⟩

end Drafts

/-! ## Lines -/

/-- Reads a line without blanks around it. -/
def readTrimmed (ds : Drafts) : List Char → Except LineFault Drafts
  | [] => .ok ds
  | '#' :: r => readComment ds r
  | line => do ds.addSample (← SampleLine.read line)

theorem foldlM_readLine (lines : List (List Char)) (ds : Drafts) :
    lines.foldlM readLine ds = (lines.map Text.trim).foldlM readTrimmed ds := by
  rw [List.foldlM_map]
  rfl

theorem readTrimmed_eq_ok_iff {ds es : Drafts} {line : List Char} (h : isSample line = true) :
    readTrimmed ds line = .ok es ↔ ∃ r, ds.reading? line = some r ∧ es = ds.enter r := by
  unfold readTrimmed
  split
  · cases h
  · cases h
  · rw [Outcome.bind_eq_ok_iff]
    simp only [Drafts.addSample_eq_ok_iff, Drafts.reading?]
    cases SampleLine.read line with
    | error e => simp [Except.toOption]
    | ok s => simp [Except.toOption]

/-- Sample lines add their readings one after the other. -/
theorem foldlM_readTrimmed_eq_ok_iff {H ds es : Drafts} (hH : ds.typeOf = H.typeOf) {lines : List (List Char)}
    (hlines : ∀ line ∈ lines, isSample line = true) :
    lines.foldlM readTrimmed ds = .ok es ↔
      (∀ line ∈ lines, (H.reading? line).isSome = true) ∧ es = (lines.filterMap H.reading?).foldl Drafts.enter ds := by
  induction lines generalizing ds with
  | nil =>
    constructor
    · intro h
      cases h
      exact ⟨fun _ h => (by cases h), rfl⟩
    · rintro ⟨-, rfl⟩
      rfl
  | cons line lines ih =>
    obtain ⟨hline, hlines⟩ := List.forall_mem_cons.mp hlines
    rw [List.foldlM_cons, Outcome.bind_eq_ok_iff]
    simp only [readTrimmed_eq_ok_iff hline, Drafts.reading?_congr hH]
    cases hr : H.reading? line with
    | none => simp [hr]
    | some r =>
      simp [hr, ih ((ds.typeOf_enter r).trans hH) hlines]

end MetricGateway.TextFormat
