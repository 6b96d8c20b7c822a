import MetricGateway.Proofs.Appearance
import MetricGateway.Proofs.Label.Order
import MetricGateway.Proofs.Metric.Normal
import MetricGateway.Proofs.Outcome
import MetricGateway.Proofs.Protobuf.Message
import MetricGateway.Protobuf.Reader

/-!
# Exchanging families in protobuf

A family that has a name, whose metrics are of its type and whose bounds are numbers (`Family.Exchangeable`) is read
back from its message with its values in normal form and one sample behind each metric (`Family.reread`). Families of
different names that are written one behind the other come back in the same order
(`read_flatMap_encodeFamily`).
-/

namespace MetricGateway

/-- A family that both readers could have made, but for the form of its values. -/
structure Family.Exchangeable (f : Family) : Prop where
  named : f.name ≠ ""
  typed : ∀ m ∈ f.metrics, m.value.type = f.type
  ordered : ∀ m ∈ f.metrics, m.value.Ordered

/-- The metric as it is read back. -/
def Metric.reread (m : Metric Binary64) : Metric Binary64 :=
  { labels := m.labels, value := m.value.normalize }

/-- The family as it is read back. -/
def Family.reread (f : Family) : Family := { f with metrics := f.metrics.map Metric.reread }

theorem Family.reread_eq_self {f : Family} (h : ∀ m ∈ f.metrics, m.reread = m) : f.reread = f := by
  have hmetrics : f.metrics.map Metric.reread = f.metrics := (List.map_congr_left h).trans (List.map_id _)
  rw [Family.reread, hmetrics]

namespace Protobuf

/-- The part of a metric message that a type picks. -/
def MetricMessage.part (x : MetricMessage) : MetricType → MetricValue Binary64
  | .counter => .counter x.counter
  | .gauge => .gauge x.gauge
  | .untyped => .untyped x.untyped
  | .histogram => .histogram x.histogram
  | .summary => .summary x.summary

theorem valueOf_of_ordered {x : MetricMessage} {t : MetricType} (h : (x.part t).Ordered) (family : String) :
    valueOf family t x = .ok (x.part t).normalize := by
  cases t with
  | counter | gauge | untyped => rfl
  | histogram =>
    refine if_neg ?_
    simp only [List.any_eq_true, not_exists, not_and, Bool.not_eq_true]
    exact h
  | summary =>
    refine if_neg ?_
    simp only [List.any_eq_true, not_exists, not_and, Bool.not_eq_true]
    exact h

theorem valueOf_ofMetric {m : Metric Binary64} (h : m.value.Ordered) (family : String) :
    valueOf family m.value.type (.ofMetric m) = .ok m.value.normalize := by
  have hpart : (MetricMessage.ofMetric m).part m.value.type = m.value := by
    unfold MetricMessage.ofMetric
    cases m.value <;> rfl
  rw [valueOf_of_ordered (by rwa [hpart]), hpart]

theorem metricOf_ofMetric {m : Metric Binary64} (h : m.value.Ordered) (family : String) :
    metricOf family m.value.type (.ofMetric m) = .ok m.reread := by
  have hlabels : (MetricMessage.ofMetric m).labels = m.labels.toList := by
    unfold MetricMessage.ofMetric
    cases m.value <;> rfl
  rw [metricOf, hlabels, LabelSet.ofList?_toList, valueOf_ofMetric h]
  rfl

theorem familyOf_ofFamily {f : Family} (hf : f.Exchangeable) : familyOf (.ofFamily f) = .ok f.reread := by
  have hmetric : ∀ m ∈ f.metrics, metricOf f.name f.type (.ofMetric m) = .ok m.reread := by
    intro m hm
    rw [← hf.typed m hm]
    exact metricOf_ofMetric (hf.ordered m hm) f.name
  have hmetrics : (f.metrics.map MetricMessage.ofMetric).mapM (metricOf f.name f.type) =
      .ok (f.metrics.map Metric.reread) := by
    rw [List.mapM_map]
    exact Outcome.mapM_eq_ok hmetric
  have hnamed : (FamilyMessage.ofFamily f).name ≠ "" := hf.named
  have htype : typeOfCode? (FamilyMessage.ofFamily f).type = some f.type := typeOfCode?_typeCode f.type
  rw [familyOf, if_neg hnamed, htype]
  show (f.metrics.map MetricMessage.ofMetric).mapM (metricOf f.name f.type) >>= _ = _
  rw [hmetrics]
  rfl

/-- A family of a new name is added at the end. -/
theorem addFamily_of_not_mem {es : Families} {f : Family} (h : f.name ∉ es.map Prod.fst) :
    addFamily es f = .ok (es ++ [(f.name, f)]) := by
  rw [addFamily, Appearance.lookup_eq_none_iff.mpr h]

/-- What adding a family does: one of a new name goes to the end, and the metrics of one of a known name and type go to
the entry of the name. -/
theorem addFamily_eq_ok_iff {es es' : Families} {f : Family} : addFamily es f = .ok es' ↔
    f.name ∉ es.map Prod.fst ∧ es' = es ++ [(f.name, f)] ∨
      ∃ e, es.lookup f.name = some e ∧ e.type = f.type ∧
        es' = Appearance.alter f.name e (fun e => { e with metrics := e.metrics ++ f.metrics }) es := by
  rw [← Appearance.lookup_eq_none_iff, addFamily]
  cases es.lookup f.name with
  | none => simp [eq_comm]
  | some e =>
    by_cases htype : e.type = f.type
    · simp [htype, eq_comm]
    · simp [htype]

/-- A message of a new family adds it at the end. -/
theorem addMessage_encode {fs : Families} {f : Family} (hf : f.Exchangeable) (hnew : f.name ∉ fs.map Prod.fst)
    (hlen : (encode (familyFields f)).length < UInt64.size) :
    addMessage fs (some (encode (familyFields f))) = .ok (fs ++ [(f.name, f.reread)]) := by
  rw [addMessage, FamilyMessage.ofBytes?_encode f hlen]
  show familyOf (.ofFamily f) >>= addFamily fs = _
  rw [familyOf_ofFamily hf]
  exact addFamily_of_not_mem (f := f.reread) hnew

theorem foldlM_addMessage_encode {fs : Families} {gs : List Family} (hgs : ∀ f ∈ gs, f.Exchangeable)
    (hnames : (fs.map Prod.fst ++ gs.map Family.name).Nodup)
    (hlen : ∀ f ∈ gs, (encode (familyFields f)).length < UInt64.size) :
    (gs.map fun f => some (encode (familyFields f))).foldlM addMessage fs =
      .ok (fs ++ gs.map fun f => (f.name, f.reread)) := by
  induction gs generalizing fs with
  | nil => rw [List.map_nil, List.map_nil, List.append_nil]; rfl
  | cons f gs ih =>
    obtain ⟨hf, hgs⟩ := List.forall_mem_cons.mp hgs
    obtain ⟨hlf, hlgs⟩ := List.forall_mem_cons.mp hlen
    have hnew : f.name ∉ fs.map Prod.fst := fun hmem =>
      (List.nodup_append.mp hnames).2.2 f.name hmem f.name List.mem_cons_self rfl
    have hnames' : ((fs ++ [(f.name, f.reread)]).map Prod.fst ++ gs.map Family.name).Nodup := by
      simpa using hnames
    rw [List.map_cons, List.foldlM_cons, addMessage_encode hf hnew hlf]
    show List.foldlM addMessage (fs ++ [(f.name, f.reread)]) _ = _
    rw [ih hgs hnames' hlgs, List.append_assoc]
    rfl

/-- **Families come back from protobuf in normal form.** Those without metrics are left out. -/
theorem read_flatMap_encodeFamily {fs : List Family} (hfs : ∀ f ∈ fs, f.Exchangeable)
    (hnames : (fs.map Family.name).Nodup) (hlen : ∀ f ∈ fs, (encode (familyFields f)).length < UInt64.size) :
    read (fs.flatMap encodeFamily) = .ok ((fs.map Family.reread).filter (!·.metrics.isEmpty)) := by
  have hbytes : fs.flatMap encodeFamily = (fs.map fun f => encode (familyFields f)).flatMap delimited := by
    rw [List.flatMap_map]
    rfl
  have hmessages : messages (fs.flatMap encodeFamily) = fs.map fun f => some (encode (familyFields f)) := by
    rw [hbytes, messages_flatMap_delimited (by simpa using hlen), List.map_map]
    rfl
  rw [read, hmessages, foldlM_addMessage_encode hfs (by simpa using hnames) hlen]
  show Except.ok ((List.map Prod.snd ([] ++ fs.map fun f => (f.name, f.reread))).filter _) = _
  rw [List.nil_append, List.map_map]
  rfl

end Protobuf
end MetricGateway
