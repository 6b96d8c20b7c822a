import MetricGateway.Gateway.SelfMetrics
import MetricGateway.Proofs.Table
import MetricGateway.Proofs.Text.Numeral
import MetricGateway.Proofs.TextFormat.Lines

/-!
# The lines of a report

Setting the gauges from a store leaves nothing of what they held before (`Gauges.totalFamilies_observe`,
`Gauges.metricsByFamily_observe`).

A report has a line for each sample, which starts with the name of its metric, and no other line starts like this
(`SelfMetrics.linesStarting_name`). Labels are written as they are, so the entries of the report are the lines of its
text as long as no label has a line feed (`SelfMetrics.linesOf_text`).
-/

namespace MetricGateway

/-! ## Gauges -/

namespace Gauges

theorem foldl_setFamily (gauges : Gauges) (sizes : List (String × Nat)) : sizes.foldl setFamily gauges =
    { gauges with metricsByFamily := sizes.foldl (fun t e => t.insert e.1 e.2) gauges.metricsByFamily } := by
  induction sizes generalizing gauges with
  | nil => rfl
  | cons e sizes ih => rw [List.foldl_cons, ih]; rfl

theorem totalFamilies_observe (gauges : Gauges) (s : Store) : (gauges.observe s).totalFamilies = s.families.size := by
  rw [observe, foldl_setFamily]
  exact List.length_map _

/-- The gauges of the families are those of the stored families, whatever they were before. -/
theorem metricsByFamily_observe (gauges : Gauges) (s : Store) : (gauges.observe s).metricsByFamily =
    s.families.map fun _ stored => stored.family.metrics.length := by
  rw [observe, foldl_setFamily]
  exact Table.ofList_entries (s.families.map fun _ stored => stored.family.metrics.length)

end Gauges

/-! ## Names -/

namespace OwnMetric

theorem head?_name (x : OwnMetric) : x.name.toList.head? = some 'p' := by cases x <;> decide

/-- No name is the start of another one. -/
theorem eq_of_start {x y : OwnMetric} (h : x.name.toList <+: y.name.toList) : x = y := by
  revert h
  cases x <;> cases y <;> decide

theorem isPrefixOf_comment (x : OwnMetric) {line : String} (hline : line.toList.head? = some '#') :
    x.name.toList.isPrefixOf line.toList = false := by
  rw [← Bool.not_eq_true, List.isPrefixOf_iff_prefix]
  rintro ⟨rest, hrest⟩
  rw [← hrest, List.head?_append, x.head?_name] at hline
  cases hline

/-- A sample starts with no name but that of its metric. -/
theorem isPrefixOf_sample (x y : OwnMetric) (sample : String) :
    x.name.toList.isPrefixOf (y.name ++ sample).toList = decide (x = y) := by
  rw [Bool.eq_iff_iff, List.isPrefixOf_iff_prefix, decide_eq_true_iff, String.toList_append]
  constructor
  · intro h
    rcases List.prefix_or_prefix_of_prefix h (List.prefix_append y.name.toList sample.toList) with h | h
    · exact eq_of_start h
    · exact (eq_of_start h).symm
  · rintro rfl
    exact List.prefix_append _ _

/-- What describes a metric has no line feed. -/
theorem not_mem_words (x : OwnMetric) :
    '\n' ∉ x.name.toList ∧ '\n' ∉ x.help.toList ∧ '\n' ∉ x.type.toList := by
  cases x <;> decide

end OwnMetric

/-! ## Lines -/

namespace SelfMetrics

/-- The lines that start with the given text. -/
def linesStarting (m : SelfMetrics) (start : String) : List String :=
  m.lines.filter fun line => start.toList.isPrefixOf line.toList

variable (m : SelfMetrics)

theorem filter_metricLines (x y : OwnMetric) :
    ((m.metricLines y).filter fun line => x.name.toList.isPrefixOf line.toList) =
      if x = y then (m.samples y).map (y.name ++ ·) else [] := by
  have hcomment : ∀ line ∈ [s!"# HELP {y.name} {y.help}.", s!"# TYPE {y.name} {y.type}"],
      x.name.toList.isPrefixOf line.toList = false := by
    intro line hline
    refine x.isPrefixOf_comment ?_
    rcases List.mem_pair.mp hline with rfl | rfl <;> simp only [String.toList_append, List.append_assoc] <;> rfl
  rw [metricLines, List.filter_cons, hcomment _ (by simp), List.filter_cons, hcomment _ (by simp), List.filter_map]
  simp only [Function.comp_def, OwnMetric.isPrefixOf_sample, Bool.false_eq_true, if_false]
  split
  next h => simp [h]
  next h => simp [h]

/-- The lines that start with the name of a metric are its samples. -/
theorem linesStarting_name (x : OwnMetric) : m.linesStarting x.name = (m.samples x).map (x.name ++ ·) := by
  have hend : x.name.toList.isPrefixOf "# EOF".toList = false := x.isPrefixOf_comment rfl
  rw [linesStarting, lines, List.filter_append, List.filter_flatMap, List.filter_singleton, hend]
  simp only [filter_metricLines]
  cases x <;> simp [OwnMetric.all]

theorem map_labelled {name suffix label start : String} (hstart : name ++ suffix ++ "\x7b" ++ label ++ "=\"" = start)
    (entries : List (String × Nat)) : (entries.map (labelled suffix label)).map (name ++ ·) =
      entries.map fun e => start ++ e.1 ++ "\"\x7d " ++ toString e.2 := by
  rw [List.map_map]
  refine List.map_congr_left fun e _ => ?_
  rw [← hstart]
  simp only [Function.comp_apply, labelled, String.append_assoc]

theorem linesStarting_totalFamilies : m.linesStarting "prom_agg_gateway_total_families" =
    [s!"prom_agg_gateway_total_families {m.totalFamilies}"] := by
  have hstart : "prom_agg_gateway_total_families" ++ " " = "prom_agg_gateway_total_families " := rfl
  refine (m.linesStarting_name .totalFamilies).trans (congrArg (fun line => [line]) ?_)
  show "prom_agg_gateway_total_families" ++ (" " ++ toString m.totalFamilies) = _
  rw [← String.append_assoc, hstart]
  rfl

theorem linesStarting_metricsByFamily : m.linesStarting "prom_agg_gateway_metrics_by_family" =
    m.metricsByFamily.map fun (name, n) => s!"prom_agg_gateway_metrics_by_family\x7bfamily=\"{name}\"\x7d {n}" :=
  (m.linesStarting_name .metricsByFamily).trans (map_labelled rfl _)

theorem linesStarting_metricPushes : m.linesStarting "prom_agg_gateway_metric_pushes" =
    m.pushesByJob.map fun (job, n) => s!"prom_agg_gateway_metric_pushes_total\x7bpush_job=\"{job}\"\x7d {n}" :=
  (m.linesStarting_name .metricPushes).trans (map_labelled rfl _)

/-! ## Line feeds -/

theorem not_mem_toString (n : Nat) : '\n' ∉ (toString n).toList :=
  fun h => absurd (Text.digits_toString n _ h) (by decide)

theorem not_mem_labelled {suffix label : String} (hsuffix : '\n' ∉ suffix.toList) (hlabel : '\n' ∉ label.toList)
    {e : String × Nat} (he : '\n' ∉ e.1.toList) : '\n' ∉ (labelled suffix label e).toList := by
  simp only [labelled, String.toList_append, List.mem_append, not_or]
  exact ⟨⟨⟨⟨⟨⟨hsuffix, by decide⟩, hlabel⟩, by decide⟩, he⟩, by decide⟩, not_mem_toString e.2⟩

variable {m} (h : ∀ e ∈ m.metricsByFamily ++ m.pushesByJob, '\n' ∉ e.1.toList)
include h

theorem not_mem_samples {x : OwnMetric} {sample : String} (hsample : sample ∈ m.samples x) : '\n' ∉ sample.toList := by
  cases x with
  | totalFamilies | sweepEvictedMetrics =>
    rw [List.mem_singleton.mp hsample, String.toList_append, List.mem_append, not_or]
    exact ⟨by decide, not_mem_toString _⟩
  | metricsByFamily =>
    obtain ⟨e, he, rfl⟩ := List.mem_map.mp hsample
    exact not_mem_labelled (by decide) (by decide) (h e (List.mem_append_left _ he))
  | metricPushes =>
    obtain ⟨e, he, rfl⟩ := List.mem_map.mp hsample
    exact not_mem_labelled (by decide) (by decide) (h e (List.mem_append_right _ he))

theorem not_mem_lines {line : String} (hline : line ∈ m.lines) : '\n' ∉ line.toList := by
  rcases List.mem_append.mp hline with hline | hline
  · obtain ⟨x, -, hline⟩ := List.mem_flatMap.mp hline
    obtain ⟨hname, hhelp, htype⟩ := x.not_mem_words
    simp only [metricLines, List.mem_cons, List.mem_map] at hline
    rcases hline with rfl | rfl | ⟨sample, hsample, rfl⟩ <;>
      simp only [String.toList_append, List.mem_append, not_or]
    · exact ⟨⟨⟨⟨by decide, hname⟩, by decide⟩, hhelp⟩, by decide⟩
    · exact ⟨⟨⟨by decide, hname⟩, by decide⟩, htype⟩
    · exact ⟨hname, not_mem_samples h hsample⟩
  · rw [List.mem_singleton.mp hline]
    decide

/-- Without line feeds in labels the lines of the report are those of its text. -/
theorem linesOf_text : TextFormat.linesOf m.text.toList = m.lines.map String.toList ++ [[]] := by
  have htext : m.text.toList = (m.lines.map fun line => line.toList ++ ['\n']).flatten := by
    rw [text, String.toList_join, List.flatMap_map, List.flatMap]
    simp only [String.toList_append]
    rfl
  have hlines : ∀ line ∈ m.lines.map (fun line => line.toList ++ ['\n']), TextFormat.IsLine line := by
    intro line hline
    obtain ⟨body, hbody, rfl⟩ := List.mem_map.mp hline
    exact ⟨body.toList, rfl, not_mem_lines h hbody⟩
  rw [htext, TextFormat.linesOf_flatten hlines, List.map_map]
  simp only [Function.comp_def, List.dropLast_concat]

end SelfMetrics
end MetricGateway
