import Mathlib.Data.List.Forall2
import MetricGateway.Proofs.TextFormat.Exchange

/-!
# The samples of a text

The sample lines of a text are its lines that are neither blank nor comments (`sampleLinesOf`). Those of a text that was
written say, one after the other, the name and the labels of each sample of the families
(`mapM_read_sampleLinesOf_of_spelled`): a sample bears the name of its family (`Metric.bareSeries`) or this name with a
suffix (`Metric.suffixedSeries`).
-/

namespace MetricGateway

/-! ## Samples of metrics -/

/-- The names and the labels of the samples that bear only the name of the family. -/
def Metric.bareSeries (name : String) (m : Metric Binary64) : List (String × List Label) :=
  match m.value with
  | .counter _ | .gauge _ | .untyped _ => [(name, m.labels.toList)]
  | .histogram _ => []
  | .summary s => s.quantiles.map fun q => (name, m.labels.toList ++ [TextFormat.numberLabel quantileLabel q.share])

/-- The names and the labels of the sum and the count of a distribution. -/
def totalSeries (name : String) (labels : LabelSet) : List (String × List Label) :=
  [(name ++ "_sum", labels.toList), (name ++ "_count", labels.toList)]

/-- The names and the labels of the samples that bear the name of the family with a suffix. -/
def Metric.suffixedSeries (name : String) (m : Metric Binary64) : List (String × List Label) :=
  match m.value with
  | .counter _ | .gauge _ | .untyped _ => []
  | .histogram h =>
    (h.buckets.map fun b =>
      (name ++ "_bucket", m.labels.toList ++ [TextFormat.numberLabel boundLabel b.upperBound])) ++
      totalSeries name m.labels
  | .summary _ => totalSeries name m.labels

/-- The names and the labels of the samples of a family. -/
def Family.series (f : Family) : List (String × List Label) :=
  f.metrics.flatMap fun m => m.bareSeries f.name ++ m.suffixedSeries f.name

namespace TextFormat

/-- A line, without the blanks around it, is a sample if it is not empty and no comment. -/
def isSample (line : List Char) : Bool := line.head?.any (· != '#')

/-- The sample lines of a text, without the blanks around them. -/
def sampleLinesOf (cs : List Char) : List (List Char) := ((linesOf cs).map Text.trim).filter isSample

/-- The name and the labels of a sample. -/
def SampleLine.series (s : SampleLine) : String × List Label := (s.name, s.labels)

/-! ## Lines of metrics -/

/-- The line is a sample with the given name and labels. -/
def Says (line : List Char) (x : String × List Label) : Prop :=
  isSample (Text.trim line) = true ∧ ∃ s, SampleLine.read (Text.trim line) = .ok s ∧ s.series = x

theorem says_sampleLine {name : String} {ls : List Label} {number : List Char} {v : Binary64}
    (hname : IsSampleName name) (hls : ∀ l ∈ ls, l.Spelled) (hnumber : Spells number v) :
    Says (sampleLine name ls number) (name, ls) := by
  rw [Says, trim_sampleLine hname hls hnumber]
  obtain ⟨c, r, hstart, hchar⟩ := sampleText_eq_cons hname ls number
  refine ⟨?_, _, SampleLine.read_written hname.1 hname.2 hls hnumber, rfl⟩
  have hne : c ≠ '#' := by
    rintro rfl
    exact absurd hchar (by decide)
  simp [isSample, hstart, hne]

theorem forall₂_flatMap {α β γ : Type} {R : β → γ → Prop} {f : α → List β} {g : α → List γ} {xs : List α}
    (h : ∀ x ∈ xs, List.Forall₂ R (f x) (g x)) : List.Forall₂ R (xs.flatMap f) (xs.flatMap g) := by
  induction xs with
  | nil => exact .nil
  | cons x xs ih =>
    obtain ⟨hx, hxs⟩ := List.forall_mem_cons.mp h
    exact List.rel_append hx (ih hxs)

theorem forall₂_map {α β γ : Type} {R : β → γ → Prop} {f : α → β} {g : α → γ} {xs : List α}
    (h : ∀ x ∈ xs, R (f x) (g x)) : List.Forall₂ R (xs.map f) (xs.map g) := by
  rw [List.forall₂_map_left_iff, List.forall₂_map_right_iff]
  exact List.forall₂_same.mpr h

theorem forall₂_filterMap {α β γ δ : Type} {R : α → β → Prop} {S : γ → δ → Prop} {f : α → Option γ}
    {g : β → Option δ} {xs : List α} {ys : List β} (h : List.Forall₂ R xs ys)
    (hfg : ∀ x ∈ xs, ∀ y ∈ ys, R x y → Option.Rel S (f x) (g y)) :
    List.Forall₂ S (xs.filterMap f) (ys.filterMap g) := by
  induction h with
  | nil => exact .nil
  | @cons x y xs ys hxy _ ih =>
    have hhead := hfg x List.mem_cons_self y List.mem_cons_self hxy
    have htail := ih fun a ha b hb => hfg a (List.mem_cons_of_mem x ha) b (List.mem_cons_of_mem y hb)
    rw [List.filterMap_cons, List.filterMap_cons]
    generalize f x = u at hhead ⊢
    generalize g y = v at hhead ⊢
    cases hhead with
    | none => exact htail
    | some hs => exact .cons hs htail

/-- The lines of a metric are its samples. -/
theorem says_metricLines {name : String} (hname : isMetricName name = true) {m : Metric Binary64}
    (hm : m.labels.Spelled) :
    List.Forall₂ Says (metricLines name m) (m.bareSeries name ++ m.suffixedSeries name) := by
  have hspelled := isSampleName_of_isMetricName hname
  have htotal : ∀ sum count, List.Forall₂ Says (totalLines name m.labels sum count) (totalSeries name m.labels) := by
    intro sum count
    exact .cons (says_sampleLine (hspelled.append (by decide)) hm (spells_text sum))
      (.cons (says_sampleLine (hspelled.append (by decide)) hm (spells_countText count)) .nil)
  obtain ⟨labels, v, n⟩ := m
  cases v with
  | counter v | gauge v | untyped v => exact .cons (says_sampleLine hspelled hm (spells_text v)) .nil
  | histogram h =>
    refine List.rel_append (forall₂_map fun b _ => ?_) (htotal _ _)
    exact says_sampleLine (hspelled.append (by decide)) (spelled_append_numberLabel (.inl rfl) hm _)
      (spells_countText _)
  | summary s =>
    refine List.rel_append (forall₂_map fun q _ => ?_) (htotal _ _)
    exact says_sampleLine hspelled (spelled_append_numberLabel (.inr rfl) hm _) (spells_text _)

/-! ## Texts -/

theorem sampleLinesOf_flatten {lines : List (List Char)} (h : ∀ line ∈ lines, IsLine line) :
    sampleLinesOf lines.flatten = (lines.map Text.trim).filter isSample := by
  have htrim : (lines.map List.dropLast).map Text.trim = lines.map Text.trim := by
    rw [List.map_map]
    exact List.map_congr_left fun line hline => trim_dropLast (h line hline)
  have hend : ([[]].map Text.trim).filter isSample = [] := by decide
  rw [sampleLinesOf, linesOf_flatten h, List.map_append, List.filter_append, htrim, hend, List.append_nil]

/-- A comment is no sample. -/
theorem isSample_comment (r : List Char) : isSample (Text.trim ('#' :: r)) = false := by
  have hdrop : ('#' :: r).dropWhile Text.isBlank = ['#'] ++ r := List.dropWhile_cons_of_neg (by decide)
  rw [Text.trim, Text.trimEnds, hdrop, Text.trimEnd_append]
  split
  · decide
  · rfl

theorem isSample_commentLine (keyword name : String) (text : List Char) :
    isSample (Text.trim (commentLine keyword name text)) = false :=
  isSample_comment (' ' :: keyword.toList ++ ' ' :: name.toList ++ ' ' :: (text ++ ['\n']))

/-- The sample lines of a family are those of its metrics. -/
theorem filter_familyLines (f : Family) : ((familyLines f).map Text.trim).filter isSample =
    ((f.metrics.flatMap (metricLines f.name)).map Text.trim).filter isSample := by
  have hhelp : ((helpLines f).map Text.trim).filter isSample = [] := by
    unfold helpLines
    split
    · rfl
    · simp [isSample_commentLine]
  rw [familyLines, List.map_append, List.filter_append, hhelp, List.nil_append, List.map_cons,
    List.filter_cons_of_neg (by simp [isSample_commentLine])]

theorem mapM_read_of_says {lines : List (List Char)} {xs : List (String × List Label)}
    (h : List.Forall₂ Says lines xs) :
    ∃ samples, ((lines.map Text.trim).filter isSample).mapM SampleLine.read = .ok samples ∧
      samples.map SampleLine.series = xs := by
  induction h with
  | nil => exact ⟨[], rfl, rfl⟩
  | @cons line x lines xs hline _ ih =>
    obtain ⟨hsample, s, hread, rfl⟩ := hline
    obtain ⟨samples, hmap, rfl⟩ := ih
    refine ⟨s :: samples, ?_, rfl⟩
    rw [List.map_cons, List.filter_cons_of_pos hsample, List.mapM_cons, hread, hmap]
    rfl

/-- **The samples of a text that was written.** -/
theorem mapM_read_sampleLinesOf_of_spelled {fs : List Family} (hfs : ∀ f ∈ fs, f.Spelled) :
    ∃ samples, (sampleLinesOf (fs.flatMap familyLines).flatten).mapM SampleLine.read = .ok samples ∧
      samples.map SampleLine.series = fs.flatMap Family.series := by
  have hsamples : ((fs.flatMap familyLines).map Text.trim).filter isSample =
      ((fs.flatMap fun f => f.metrics.flatMap (metricLines f.name)).map Text.trim).filter isSample := by
    simp only [List.map_flatMap, List.filter_flatMap, filter_familyLines]
  rw [sampleLinesOf_flatten (isLine_of_mem_flatMap_familyLines hfs), hsamples]
  refine mapM_read_of_says (forall₂_flatMap fun f hf => forall₂_flatMap fun m hm => ?_)
  exact says_metricLines (hfs f hf).name ((hfs f hf).labels m hm)

theorem mapM_read_sampleLinesOf {fs : List Family} (hfs : ∀ f ∈ fs, f.Writable) :
    ∃ samples, (sampleLinesOf (fs.flatMap familyLines).flatten).mapM SampleLine.read = .ok samples ∧
      samples.map SampleLine.series = fs.flatMap Family.series :=
  mapM_read_sampleLinesOf_of_spelled fun f hf => (hfs f hf).spelled

end TextFormat
end MetricGateway
