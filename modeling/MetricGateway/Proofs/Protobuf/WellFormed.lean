import MetricGateway.Proofs.Label.LastWriter
import MetricGateway.Proofs.Protobuf.Exchange

/-!
# Well-formed messages

A family message is well formed if it can be accepted on its own: it is named and of a known type, the bounds and
quantiles of its metrics are numbers, and no label name is repeated within a metric (`FamilyMessage.WellFormed`). Such a
message has bytes, whatever its metrics hold in the parts of other types (`FamilyMessage.hasBytes_encode`), and it is
read as the family that it describes (`familyOf_of_wellFormed`).
-/

namespace MetricGateway

/-- Labels of different names are those of the set that they are entered into. -/
theorem LabelSet.ofList?_of_nodup {ls : List Label} (h : (ls.map Label.name).Nodup) :
    ofList? ls = .ok (empty.insertAll ls) := by
  have hlast : ∀ {before : List Label}, ((before ++ ls).map Label.name).Nodup →
      ls.foldl putLast before = before ++ ls := by
    clear h
    induction ls with
    | nil => simp
    | cons l ls ih =>
      intro before hbefore
      have hkept : before.filter (·.name ≠ l.name) = before := by
        refine List.filter_eq_self.mpr fun x hx => decide_eq_true fun he => ?_
        rw [List.map_append, List.nodup_append] at hbefore
        exact hbefore.2.2 _ (List.mem_map_of_mem hx) _ List.mem_cons_self he
      rw [List.foldl_cons, putLast, hkept, ih (by simpa using hbefore), List.append_assoc]
      rfl
  refine ofList?_eq_ok_iff.mpr ?_
  have hperm := perm_insertAll (s := empty) (.refl []) ls
  rwa [hlast (by simpa using h)] at hperm

namespace Protobuf

/-- The metric of a message under a type. -/
def MetricMessage.metric (t : MetricType) (x : MetricMessage) : Metric Binary64 :=
  { labels := LabelSet.empty.insertAll x.labels, value := (x.part t).normalize }

namespace FamilyMessage

/-- The type of a family message; a number that stands for none is taken for that of an untyped one. -/
def kind (m : FamilyMessage) : MetricType := (typeOfCode? m.type).getD .untyped

/-- The family of a message. -/
def family (m : FamilyMessage) : Family := ⟨m.name, m.help, m.kind, m.metrics.map (·.metric m.kind)⟩

/-- A message with a name and a known type, with numbers for bounds and quantiles, and with different label names in
each metric. -/
structure WellFormed (m : FamilyMessage) : Prop where
  named : m.name ≠ ""
  typed : ∃ t : MetricType, m.type = typeCode t
  ordered : ∀ x ∈ m.metrics, (x.part m.kind).Ordered
  labelled : ∀ x ∈ m.metrics, (x.labels.map Label.name).Nodup

/-- The bytes are read as the message, and their length can stand before them. -/
def HasBytes (m : FamilyMessage) (bytes : List UInt8) : Prop := ofBytes? bytes = some m ∧ bytes.length < UInt64.size

end FamilyMessage

/-! ## Families of messages -/

theorem FamilyMessage.WellFormed.type_eq {m x : FamilyMessage} (hx : x.WellFormed) (hm : m.WellFormed)
    (h : x.kind = m.kind) : x.type = m.type := by
  have hcode : ∀ {m : FamilyMessage}, m.WellFormed → m.type = typeCode m.kind := by
    intro m hm
    obtain ⟨t, ht⟩ := hm.typed
    rw [FamilyMessage.kind, ht, typeOfCode?_typeCode, Option.getD_some]
  rw [hcode hx, hcode hm, h]

theorem familyOf_of_wellFormed {m : FamilyMessage} (h : m.WellFormed) : familyOf m = .ok m.family := by
  obtain ⟨t, ht⟩ := h.typed
  have hcode : typeOfCode? m.type = some t := ht ▸ typeOfCode?_typeCode t
  have hkind : m.kind = t := by rw [FamilyMessage.kind, hcode, Option.getD_some]
  have hmetric : ∀ x ∈ m.metrics, metricOf m.name t x = .ok (x.metric t) := by
    intro x hx
    rw [metricOf, LabelSet.ofList?_of_nodup (h.labelled x hx), valueOf_of_ordered (hkind ▸ h.ordered x hx)]
    rfl
  rw [familyOf, if_neg h.named, hcode]
  show m.metrics.mapM (metricOf m.name t) >>= _ = _
  rw [Outcome.mapM_eq_ok hmetric, FamilyMessage.family, hkind]
  rfl

/-! ## Bytes of messages -/

/-- A metric message with all its parts. -/
def MetricMessage.fields (x : MetricMessage) : List Field :=
  (x.labels.map fun l => messageField 1 (labelFields l)) ++ MetricType.all.map fun t => valueField (x.part t)

/-- A family message with all its metrics. -/
def FamilyMessage.fields (m : FamilyMessage) : List Field :=
  familyMessageFields m.name m.help m.type.toNat MetricMessage.fields m.metrics

theorem MetricMessage.inRange_fields (x : MetricMessage) : ∀ f ∈ x.fields, f.InRange := by
  intro f hf
  rcases List.mem_append.mp hf with hf | hf
  · obtain ⟨l, -, rfl⟩ := List.mem_map.mp hf
    exact inRange_messageField (by decide) _
  · obtain ⟨t, -, rfl⟩ := List.mem_map.mp hf
    rw [valueField_eq]
    refine inRange_messageField ?_ _
    cases t <;> exact ⟨by simp [partOf, part], by simp [partOf, part, UInt32.size]⟩

section Metric

variable {x : MetricMessage} (hlen : (encode x.fields).length < UInt64.size)
include hlen

theorem MetricMessage.length_encode_part_lt (t : MetricType) : (encode (partOf (x.part t)).2).length < UInt64.size := by
  refine length_encode_lt_of_mem (partOf (x.part t)).1 ?_ hlen
  rw [← valueField_eq]
  exact List.mem_append_right _ (List.mem_map_of_mem (by cases t <;> decide))

theorem MetricMessage.messagesOf?_fields {limit : Nat} : messagesOf? limit readLabel? 1 x.fields = some x.labels := by
  have hlabels := messagesOf?_labels x.labels limit hlen fun l hl =>
    List.mem_append_left _ (List.mem_map_of_mem hl)
  have hparts : ∀ t ∈ MetricType.all, (valueField (x.part t)).number ≠ 1 := by
    intro t _
    cases t <;> simp [valueField, part]
  rw [messagesOf?, fields, valuesOf?_append hlabels, valuesOf?_map_of_ne hparts]
  simp

/-- Every part is read from its own message. -/
theorem MetricMessage.messageOf?_fields {α : Type} {limit : Nat} (read? : List Field → Option α) (t : MetricType) :
    messageOf? limit read? (partOf (x.part t)).1 x.fields = read? (partOf (x.part t)).2 := by
  have hown : MetricType.all.filter (fun s => (valueField (x.part s)).number = (partOf (x.part t)).1) = [t] := by
    cases t <;> rfl
  have hparts : valuesOf? (Payload.fields? limit) (partOf (x.part t)).1
      (MetricType.all.map fun s => valueField (x.part s)) = some [(partOf (x.part t)).2] := by
    rw [valuesOf?, List.filter_map]
    show ((MetricType.all.filter fun s => (valueField (x.part s)).number = (partOf (x.part t)).1).map _).mapM _ = _
    rw [hown, List.map_singleton, List.mapM_cons, valueField_eq,
      fields?_messageField _ (inRange_partOf _) (length_encode_part_lt hlen t)]
    rfl
  have hne : (partOf (x.part t)).1 ≠ 1 := by cases t <;> simp [partOf, part]
  rw [messageOf?, fields, valuesOf?_append (valuesOf?_labels_of_ne _ _ hne), hparts]
  simp

theorem MetricMessage.read?_fields : MetricMessage.read? x.fields = some x := by
  have hgauge : messageOf? (nestingLimit - 3) readNumber? 2 x.fields = some x.gauge :=
    (messageOf?_fields hlen readNumber? .gauge).trans (readNumber?_doubleField x.gauge)
  have hcounter : messageOf? (nestingLimit - 3) readNumber? 3 x.fields = some x.counter :=
    (messageOf?_fields hlen readNumber? .counter).trans (readNumber?_doubleField x.counter)
  have hsummary : messageOf? (nestingLimit - 3) readSummary? 4 x.fields = some x.summary :=
    (messageOf?_fields hlen readSummary? .summary).trans
      (readSummary?_distributionFields (length_encode_part_lt hlen .summary))
  have huntyped : messageOf? (nestingLimit - 3) readNumber? 5 x.fields = some x.untyped :=
    (messageOf?_fields hlen readNumber? .untyped).trans (readNumber?_doubleField x.untyped)
  have hhistogram : messageOf? (nestingLimit - 3) readHistogram? 7 x.fields = some x.histogram :=
    (messageOf?_fields hlen readHistogram? .histogram).trans
      (readHistogram?_distributionFields (length_encode_part_lt hlen .histogram))
  have htimestamp : valuesOf? Payload.varint? 6 x.fields = some [] := by
    have hparts : ∀ t ∈ MetricType.all, (valueField (x.part t)).number ≠ 6 := by
      intro t _
      cases t <;> simp [valueField, part]
    rw [fields, valuesOf?_append (valuesOf?_labels_of_ne _ _ (by decide)), valuesOf?_map_of_ne hparts]
    rfl
  rw [MetricMessage.read?, messagesOf?_fields hlen, hgauge, hcounter, hsummary, huntyped, htimestamp, hhistogram]
  rfl

end Metric

/-- **A well-formed message has bytes**, whatever else its metrics hold. -/
theorem FamilyMessage.hasBytes_encode {m : FamilyMessage} (hm : m.WellFormed)
    (hlen : (encode m.fields).length < UInt64.size) : m.HasBytes (encode m.fields) := by
  obtain ⟨t, ht⟩ := hm.typed
  have hmetric := length_encode_metric_lt m.name m.help m.metrics hlen
  have hcode : m.type.toNat < UInt64.size := by
    rw [ht]
    exact Nat.lt_trans (typeCode_lt t) (by decide)
  have hread := ofBytes?_encode_fields m.name m.help m.metrics hcode (fun x _ => x.inRange_fields) hlen
    fun x hx => MetricMessage.read?_fields (hmetric x hx)
  have htype : signed32 m.type.toNat = m.type := by
    rw [ht]
    exact signed32_typeCode t
  rw [htype, List.map_id'] at hread
  exact ⟨hread, hlen⟩

end Protobuf
end MetricGateway
