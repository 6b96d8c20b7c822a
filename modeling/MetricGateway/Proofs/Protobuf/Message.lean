import MetricGateway.Proofs.Protobuf.Wire
import MetricGateway.Proofs.Text.Utf8
import MetricGateway.Protobuf.Writer

/-!
# Reading back messages

The message of a label, of a bucket, of a quantile, of a metric and of a family is read back as what it was made of
(`FamilyMessage.ofBytes?_encode`). A metric message holds only the part of its own type, and the parts of the other
types are read as zeros (`MetricMessage.ofMetric`).
-/

namespace MetricGateway.Protobuf

/-! ## Fields by number -/

section Lookup

variable {α β : Type} {get : Payload → Option α} {number : Nat}

theorem valuesOf?_nil : valuesOf? get number [] = some [] := rfl

theorem valuesOf?_cons (f : Field) (fs : List Field) :
    valuesOf? get number (f :: fs) =
      if f.number = number then (get f.payload).bind fun v => (valuesOf? get number fs).map (v :: ·)
      else valuesOf? get number fs := by
  simp only [valuesOf?]
  by_cases h : f.number = number
  · rw [List.filter_cons_of_pos (by simpa using h), List.mapM_cons, if_pos h]
    cases get f.payload with
    | none => rfl
    | some v => exact (Option.map_eq_bind ..).symm
  · rw [List.filter_cons_of_neg (by simpa using h), if_neg h]

theorem valuesOf?_append {fs gs : List Field} {vs : List α} (h : valuesOf? get number fs = some vs) :
    valuesOf? get number (fs ++ gs) = (valuesOf? get number gs).map (vs ++ ·) := by
  induction fs generalizing vs with
  | nil =>
    cases h
    simp
  | cons f fs ih =>
    rw [valuesOf?_cons] at h
    rw [List.cons_append, valuesOf?_cons]
    split at h
    next hf =>
      obtain ⟨v, hv, h⟩ := Option.bind_eq_some_iff.mp h
      obtain ⟨ws, hws, rfl⟩ := Option.map_eq_some_iff.mp h
      rw [if_pos hf, hv, ih hws, Option.bind_some, Option.map_map]
      rfl
    next hf => rw [if_neg hf, ih h]

/-- Fields of the number are read one by one. -/
theorem valuesOf?_map {field : β → Field} {value : β → α} {xs : List β} (hnumber : ∀ x ∈ xs, (field x).number = number)
    (hget : ∀ x ∈ xs, get (field x).payload = some (value x)) :
    valuesOf? get number (xs.map field) = some (xs.map value) := by
  induction xs with
  | nil => rfl
  | cons x xs ih =>
    obtain ⟨hx, hxs⟩ := List.forall_mem_cons.mp hnumber
    obtain ⟨gx, gxs⟩ := List.forall_mem_cons.mp hget
    rw [List.map_cons, valuesOf?_cons, if_pos hx, gx, ih hxs gxs]
    rfl

/-- Fields of other numbers do not count. -/
theorem valuesOf?_map_of_ne {field : β → Field} {xs : List β} (h : ∀ x ∈ xs, (field x).number ≠ number) :
    valuesOf? get number (xs.map field) = some [] := by
  induction xs with
  | nil => rfl
  | cons x xs ih =>
    obtain ⟨hx, hxs⟩ := List.forall_mem_cons.mp h
    rw [List.map_cons, valuesOf?_cons, if_neg hx, ih hxs]

end Lookup

/-! ## Payloads -/

section Payloads

variable (number : Nat)

@[simp] theorem text?_textField (s : String) : (textField number s).payload.text? = some s := by
  show (Utf8.decode? (Utf8.encode s.toList)).map String.ofList = some s
  rw [Utf8.decode?_encode, Option.map_some, String.ofList_toList]

@[simp] theorem double?_doubleField (x : Binary64) : (doubleField number x).payload.double? = some x := by
  show some (Binary64.mk (UInt64.ofNat x.bits.toNat)) = some x
  rw [UInt64.ofNat_toNat]

@[simp] theorem varint?_countField (n : Nat) : (countField number n).payload.varint? = some n := rfl

@[simp] theorem number_textField (s : String) : (textField number s).number = number := rfl

@[simp] theorem number_doubleField (x : Binary64) : (doubleField number x).number = number := rfl

@[simp] theorem number_countField (n : Nat) : (countField number n).number = number := rfl

@[simp] theorem number_messageField (fs : List Field) : (messageField number fs).number = number := rfl

theorem fields?_messageField {fs : List Field} (hfs : ∀ f ∈ fs, f.InRange)
    (hlen : (encode fs).length < UInt64.size) (limit : Nat) :
    (messageField number fs).payload.fields? limit = some fs := fields?_encode hfs hlen limit

end Payloads

/-! ## Ranges -/

section Ranges

variable {number : Nat} (h : number ≠ 0 ∧ 8 * number + 7 < UInt32.size)
include h

theorem inRange_textField (s : String) : (textField number s).InRange := ⟨h.1, h.2, trivial⟩

theorem inRange_doubleField (x : Binary64) : (doubleField number x).InRange := ⟨h.1, h.2, x.bits.toNat_lt⟩

theorem inRange_countField {n : Nat} (hn : n < UInt64.size) : (countField number n).InRange := ⟨h.1, h.2, hn⟩

theorem inRange_messageField (fs : List Field) : (messageField number fs).InRange := ⟨h.1, h.2, trivial⟩

end Ranges

theorem length_encode_lt_of_mem (number : Nat) {fs gs : List Field} (h : messageField number fs ∈ gs)
    (hlen : (encode gs).length < UInt64.size) : (encode fs).length < UInt64.size := by
  refine Nat.lt_of_le_of_lt (Nat.le_trans ?_ (length_encode_le h)) hlen
  simp only [messageField, Field.encode, Payload.encode, List.length_append]
  omega

/-- The messages of a repeated field are read one by one. -/
theorem messagesOf?_map {α β : Type} {limit number : Nat} {read? : List Field → Option β} {fields : α → List Field}
    {value : α → β} {xs : List α} (hrange : ∀ x ∈ xs, ∀ f ∈ fields x, f.InRange)
    (hlen : ∀ x ∈ xs, (encode (fields x)).length < UInt64.size) (hread : ∀ x ∈ xs, read? (fields x) = some (value x)) :
    messagesOf? limit read? number (xs.map fun x => messageField number (fields x)) = some (xs.map value) := by
  refine valuesOf?_map (fun _ _ => rfl) fun x hx => ?_
  rw [fields?_messageField number (hrange x hx) (hlen x hx), Option.bind_some, hread x hx]

/-! ## Messages -/

theorem readLabel?_labelFields (l : Label) : readLabel? (labelFields l) = some l := by
  simp [readLabel?, labelFields, textOf?, lastOf?, valuesOf?_cons, valuesOf?_nil]

theorem readNumber?_doubleField (x : Binary64) : readNumber? [doubleField 1 x] = some x := by
  simp [readNumber?, doubleOf?, lastOf?, valuesOf?_cons, valuesOf?_nil]

theorem readNumber?_nil : readNumber? [] = some .zero := rfl

theorem readQuantile?_quantileFields (q : Quantile Binary64) : readQuantile? (quantileFields q) = some q := by
  simp [readQuantile?, quantileFields, doubleOf?, lastOf?, valuesOf?_cons, valuesOf?_nil]

theorem readBucket?_bucketFields (b : Bucket Binary64) : readBucket? (bucketFields b) = some b := by
  simp [readBucket?, bucketFields, doubleOf?, countOf?, lastOf?, valuesOf?_cons, valuesOf?_nil]

theorem inRange_labelFields (l : Label) : ∀ f ∈ labelFields l, f.InRange := by
  simp only [labelFields, List.forall_mem_cons]
  exact ⟨inRange_textField (by decide) _, inRange_textField (by decide) _, by simp⟩

theorem inRange_quantileFields (q : Quantile Binary64) : ∀ f ∈ quantileFields q, f.InRange := by
  simp only [quantileFields, List.forall_mem_cons]
  exact ⟨inRange_doubleField (by decide) _, inRange_doubleField (by decide) _, by simp⟩

theorem inRange_bucketFields (b : Bucket Binary64) : ∀ f ∈ bucketFields b, f.InRange := by
  simp only [bucketFields, List.forall_mem_cons]
  exact ⟨inRange_countField (by decide) b.cumulativeCount.toNat_lt, inRange_doubleField (by decide) _, by simp⟩

/-- The message of a distribution: a count, a sum, and a repeated field. -/
def distributionFields {α : Type} (count : Count) (sum : Binary64) (fields : α → List Field) (xs : List α) :
    List Field :=
  countField 1 count.toNat :: doubleField 2 sum :: xs.map fun x => messageField 3 (fields x)

section Distribution

variable {α : Type} (count : Count) (sum : Binary64) {fields : α → List Field} (xs : List α)

theorem inRange_distributionFields : ∀ f ∈ distributionFields count sum fields xs, f.InRange := by
  simp only [distributionFields, List.forall_mem_cons]
  refine ⟨inRange_countField (by decide) count.toNat_lt, inRange_doubleField (by decide) _, fun f hf => ?_⟩
  obtain ⟨x, -, rfl⟩ := List.mem_map.mp hf
  exact inRange_messageField (by decide) _

theorem countOf?_distributionFields : countOf? 1 (distributionFields count sum fields xs) = some count := by
  have hrest : valuesOf? Payload.varint? 1 (xs.map fun x => messageField 3 (fields x)) = some [] :=
    valuesOf?_map_of_ne fun _ _ => by simp
  simp [distributionFields, countOf?, lastOf?, valuesOf?_cons, hrest]

theorem doubleOf?_distributionFields : doubleOf? 2 (distributionFields count sum fields xs) = some sum := by
  have hrest : valuesOf? Payload.double? 2 (xs.map fun x => messageField 3 (fields x)) = some [] :=
    valuesOf?_map_of_ne fun _ _ => by simp
  simp [distributionFields, doubleOf?, lastOf?, valuesOf?_cons, hrest]

theorem messagesOf?_distributionFields {limit : Nat} {read? : List Field → Option α}
    (hrange : ∀ x, ∀ f ∈ fields x, f.InRange) (hread : ∀ x, read? (fields x) = some x)
    (hlen : (encode (distributionFields count sum fields xs)).length < UInt64.size) :
    messagesOf? limit read? 3 (distributionFields count sum fields xs) = some xs := by
  have hrest : messagesOf? limit read? 3 (xs.map fun x => messageField 3 (fields x)) = some (xs.map id) := by
    refine messagesOf?_map (fun x _ => hrange x) (fun x hx => ?_) fun x _ => hread x
    refine length_encode_lt_of_mem 3 ?_ hlen
    exact List.mem_cons_of_mem _ (List.mem_cons_of_mem _ (List.mem_map_of_mem hx))
  rw [messagesOf?, distributionFields, valuesOf?_cons, if_neg (by simp), valuesOf?_cons, if_neg (by simp)]
  rwa [List.map_id] at hrest

end Distribution

theorem readSummary?_distributionFields {s : Summary Binary64}
    (hlen : (encode (distributionFields s.sampleCount s.sampleSum quantileFields s.quantiles)).length < UInt64.size) :
    readSummary? (distributionFields s.sampleCount s.sampleSum quantileFields s.quantiles) = some s := by
  rw [readSummary?, countOf?_distributionFields, doubleOf?_distributionFields,
    messagesOf?_distributionFields _ _ _ inRange_quantileFields readQuantile?_quantileFields hlen]
  rfl

theorem readHistogram?_distributionFields {h : Histogram Binary64}
    (hlen : (encode (distributionFields h.sampleCount h.sampleSum bucketFields h.buckets)).length < UInt64.size) :
    readHistogram? (distributionFields h.sampleCount h.sampleSum bucketFields h.buckets) = some h := by
  rw [readHistogram?, countOf?_distributionFields, doubleOf?_distributionFields,
    messagesOf?_distributionFields _ _ _ inRange_bucketFields readBucket?_bucketFields hlen]
  rfl

theorem readSummary?_nil : readSummary? [] = some ⟨0, .zero, []⟩ := rfl

theorem readHistogram?_nil : readHistogram? [] = some ⟨0, .zero, []⟩ := rfl

/-! ## Metrics -/

/-- A metric message in which every part is zero. -/
def MetricMessage.blank (labels : List Label) : MetricMessage :=
  ⟨labels, .zero, .zero, ⟨0, .zero, []⟩, .zero, ⟨0, .zero, []⟩⟩

/-- The metric message that is read where a metric was written. -/
def MetricMessage.ofMetric (m : Metric Binary64) : MetricMessage :=
  let blank := MetricMessage.blank m.labels.toList
  match m.value with
  | .counter v => { blank with counter := v }
  | .gauge v => { blank with gauge := v }
  | .untyped v => { blank with untyped := v }
  | .histogram h => { blank with histogram := h }
  | .summary s => { blank with summary := s }

/-- The number of the part that holds a value, and the message of that part. -/
def partOf : MetricValue Binary64 → Nat × List Field
  | .gauge v => (2, [doubleField 1 v])
  | .counter v => (3, [doubleField 1 v])
  | .summary s => (4, distributionFields s.sampleCount s.sampleSum quantileFields s.quantiles)
  | .untyped v => (5, [doubleField 1 v])
  | .histogram h => (7, distributionFields h.sampleCount h.sampleSum bucketFields h.buckets)

theorem valueField_eq (v : MetricValue Binary64) : valueField v = messageField (partOf v).1 (partOf v).2 := by
  cases v <;> rfl

theorem inRange_partOf (v : MetricValue Binary64) : ∀ f ∈ (partOf v).2, f.InRange := by
  cases v with
  | counter | gauge | untyped => simpa [partOf] using inRange_doubleField (by decide) _
  | summary s => exact inRange_distributionFields _ _ _
  | histogram h => exact inRange_distributionFields _ _ _

section Labels

variable (ls : List Label)

theorem valuesOf?_labels_of_ne {α : Type} (get : Payload → Option α) {number : Nat} (hnumber : number ≠ 1) :
    valuesOf? get number (ls.map fun l => messageField 1 (labelFields l)) = some [] :=
  valuesOf?_map_of_ne fun _ _ => by simpa using Ne.symm hnumber

theorem messagesOf?_labels (limit : Nat) {fs : List Field} (hlen : (encode fs).length < UInt64.size)
    (hmem : ∀ l ∈ ls, messageField 1 (labelFields l) ∈ fs) :
    messagesOf? limit readLabel? 1 (ls.map fun l => messageField 1 (labelFields l)) = some ls := by
  have hlabels : messagesOf? limit readLabel? 1 (ls.map fun l => messageField 1 (labelFields l)) = some (ls.map id) :=
    messagesOf?_map (fun l _ => inRange_labelFields l) (fun l hl => length_encode_lt_of_mem 1 (hmem l hl) hlen)
      fun l _ => readLabel?_labelFields l
  rwa [List.map_id] at hlabels

end Labels

/-- A metric has no timestamp. -/
theorem valuesOf?_timestamp (m : Metric Binary64) : valuesOf? Payload.varint? 6 (metricFields m) = some [] := by
  have hne : (partOf m.value).1 ≠ 6 := by cases m.value <;> simp [partOf]
  rw [metricFields, valuesOf?_append (valuesOf?_labels_of_ne _ _ (by decide)), valueField_eq, valuesOf?_cons,
    number_messageField, if_neg hne, valuesOf?_nil]
  rfl

section Metric

variable {m : Metric Binary64} (hlen : (encode (metricFields m)).length < UInt64.size)
include hlen

theorem length_encode_partOf_lt : (encode (partOf m.value).2).length < UInt64.size := by
  refine length_encode_lt_of_mem (partOf m.value).1 ?_ hlen
  rw [metricFields, valueField_eq]
  exact List.mem_append_right _ List.mem_cons_self

/-- Of the parts of a metric message only its own is there. -/
theorem valuesOf?_metricFields {limit number : Nat} (hnumber : number ≠ 1) :
    valuesOf? (Payload.fields? limit) number (metricFields m) =
      some (if (partOf m.value).1 = number then [(partOf m.value).2] else []) := by
  rw [metricFields, valuesOf?_append (valuesOf?_labels_of_ne _ _ hnumber), valueField_eq, valuesOf?_cons, valuesOf?_nil,
    fields?_messageField _ (inRange_partOf m.value) (length_encode_partOf_lt hlen), number_messageField]
  split <;> rfl

/-- A part is read from its own message, or else from an empty one. -/
theorem messageOf?_metricFields {α : Type} {limit number : Nat} {read? : List Field → Option α} (hnumber : number ≠ 1) :
    messageOf? limit read? number (metricFields m) =
      read? (if (partOf m.value).1 = number then (partOf m.value).2 else []) := by
  rw [messageOf?, valuesOf?_metricFields hlen hnumber, Option.bind_some]
  split <;> simp

theorem messagesOf?_metricFields {limit : Nat} :
    messagesOf? limit readLabel? 1 (metricFields m) = some m.labels.toList := by
  have hlabels := messagesOf?_labels m.labels.toList limit hlen fun l hl =>
    List.mem_append_left _ (List.mem_map_of_mem hl)
  have hne : (partOf m.value).1 ≠ 1 := by cases m.value <;> simp [partOf]
  rw [messagesOf?, metricFields, valuesOf?_append hlabels, valueField_eq, valuesOf?_cons,
    number_messageField, if_neg hne, valuesOf?_nil]
  simp

theorem MetricMessage.read?_metricFields : MetricMessage.read? (metricFields m) = some (.ofMetric m) := by
  have hpart : (encode (partOf m.value).2).length < UInt64.size := length_encode_partOf_lt hlen
  rw [MetricMessage.read?, messagesOf?_metricFields hlen, messageOf?_metricFields hlen (by decide),
    messageOf?_metricFields hlen (by decide), messageOf?_metricFields hlen (by decide),
    messageOf?_metricFields hlen (by decide), messageOf?_metricFields hlen (by decide), valuesOf?_timestamp]
  unfold MetricMessage.ofMetric
  cases hv : m.value with
  | counter v | gauge v | untyped v =>
    simp [partOf, MetricMessage.blank, readNumber?_doubleField, readNumber?_nil, readSummary?_nil, readHistogram?_nil]
  | histogram h =>
    rw [hv] at hpart
    simp [partOf, MetricMessage.blank, readNumber?_nil, readSummary?_nil, readHistogram?_distributionFields hpart]
  | summary s =>
    rw [hv] at hpart
    simp [partOf, MetricMessage.blank, readNumber?_nil, readHistogram?_nil, readSummary?_distributionFields hpart]

end Metric

theorem inRange_metricFields (m : Metric Binary64) : ∀ f ∈ metricFields m, f.InRange := by
  intro f hf
  rcases List.mem_append.mp hf with hf | hf
  · obtain ⟨l, -, rfl⟩ := List.mem_map.mp hf
    exact inRange_messageField (by decide) _
  · have hnumber : (partOf m.value).1 ≠ 0 ∧ 8 * (partOf m.value).1 + 7 < UInt32.size := by
      cases m.value <;> exact ⟨by simp [partOf], by simp [partOf, UInt32.size]⟩
    rw [valueField_eq] at hf
    cases List.mem_singleton.mp hf
    exact inRange_messageField hnumber _

/-! ## Families -/

/-- The family message that is read where a family was written. -/
def FamilyMessage.ofFamily (f : Family) : FamilyMessage :=
  ⟨f.name, f.help, typeCode f.type, f.metrics.map .ofMetric⟩

/-- The message of a family: a name, a help that may be absent, the number of a type, and a repeated field. -/
def familyMessageFields {α : Type} (name : String) (help : Option String) (code : Nat) (fields : α → List Field)
    (xs : List α) : List Field :=
  textField 1 name :: (help.map (textField 2)).toList ++ countField 3 code :: xs.map fun x => messageField 4 (fields x)

section Family

variable {α : Type} (name : String) (help : Option String) {code : Nat} {fields : α → List Field} (xs : List α)

theorem inRange_familyMessageFields (hcode : code < UInt64.size) :
    ∀ g ∈ familyMessageFields name help code fields xs, g.InRange := by
  intro g hg
  rw [familyMessageFields, List.cons_append] at hg
  rcases List.mem_cons.mp hg with rfl | hg
  · exact inRange_textField (by decide) _
  rcases List.mem_append.mp hg with hg | hg
  · obtain ⟨text, -, rfl⟩ := Option.map_eq_some_iff.mp (Option.mem_toList.mp hg)
    exact inRange_textField (by decide) _
  rcases List.mem_cons.mp hg with rfl | hg
  · exact inRange_countField (by decide) hcode
  · obtain ⟨x, -, rfl⟩ := List.mem_map.mp hg
    exact inRange_messageField (by decide) _

theorem valuesOf?_metrics_of_ne {β : Type} (fields : α → List Field) (xs : List α) (get : Payload → Option β)
    {number : Nat} (hnumber : number ≠ 4) :
    valuesOf? get number (xs.map fun x => messageField 4 (fields x)) = some [] :=
  valuesOf?_map_of_ne fun _ _ => by simpa using Ne.symm hnumber

theorem textOf?_familyMessageFields : textOf? 1 (familyMessageFields name help code fields xs) = some name := by
  have hmetrics := valuesOf?_metrics_of_ne fields xs Payload.text? (show 1 ≠ 4 by decide)
  cases help <;> simp [familyMessageFields, textOf?, lastOf?, valuesOf?_cons, hmetrics]

/-- An absent help and an empty one are told apart. -/
theorem lastOf?_help : lastOf? Payload.text? 2 (familyMessageFields name help code fields xs) = some help := by
  have hmetrics := valuesOf?_metrics_of_ne fields xs Payload.text? (show 2 ≠ 4 by decide)
  cases help <;> simp [familyMessageFields, lastOf?, valuesOf?_cons, hmetrics]

theorem lastOf?_type : lastOf? Payload.varint? 3 (familyMessageFields name help code fields xs) = some (some code) := by
  have hmetrics := valuesOf?_metrics_of_ne fields xs Payload.varint? (show 3 ≠ 4 by decide)
  cases help <;> simp [familyMessageFields, lastOf?, valuesOf?_cons, hmetrics]

theorem length_encode_metric_lt (hlen : (encode (familyMessageFields name help code fields xs)).length < UInt64.size) :
    ∀ x ∈ xs, (encode (fields x)).length < UInt64.size := by
  intro x hx
  refine length_encode_lt_of_mem 4 ?_ hlen
  rw [familyMessageFields]
  exact List.mem_append_right _ (List.mem_cons_of_mem _ (List.mem_map_of_mem hx))

theorem messagesOf?_familyMessageFields {limit : Nat} {value : α → MetricMessage}
    (hrange : ∀ x ∈ xs, ∀ f ∈ fields x, f.InRange)
    (hlen : (encode (familyMessageFields name help code fields xs)).length < UInt64.size)
    (hread : ∀ x ∈ xs, MetricMessage.read? (fields x) = some (value x)) :
    messagesOf? limit MetricMessage.read? 4 (familyMessageFields name help code fields xs) = some (xs.map value) := by
  have hmetrics : messagesOf? limit MetricMessage.read? 4 (xs.map fun x => messageField 4 (fields x)) =
      some (xs.map value) := messagesOf?_map hrange (length_encode_metric_lt name help xs hlen) hread
  rw [messagesOf?] at hmetrics ⊢
  cases help <;> simp [familyMessageFields, valuesOf?_cons, hmetrics]

/-- **The message of a family is read as what it was made of.** -/
theorem FamilyMessage.ofBytes?_encode_fields {value : α → MetricMessage} (hcode : code < UInt64.size)
    (hrange : ∀ x ∈ xs, ∀ f ∈ fields x, f.InRange)
    (hlen : (encode (familyMessageFields name help code fields xs)).length < UInt64.size)
    (hread : ∀ x ∈ xs, MetricMessage.read? (fields x) = some (value x)) :
    FamilyMessage.ofBytes? (encode (familyMessageFields name help code fields xs)) =
      some ⟨name, help, signed32 code, xs.map value⟩ := by
  rw [FamilyMessage.ofBytes?, fields?_encode (inRange_familyMessageFields name help xs hcode) hlen, Option.bind_some,
    FamilyMessage.read?, textOf?_familyMessageFields, lastOf?_help, lastOf?_type,
    messagesOf?_familyMessageFields name help xs hrange hlen hread]
  rfl

end Family

theorem typeCode_lt (t : MetricType) : typeCode t < 5 := by
  cases t <;> decide

theorem signed32_typeCode (t : MetricType) : signed32 (typeCode t) = typeCode t := by
  cases t <;> decide

theorem typeOfCode?_typeCode (t : MetricType) : typeOfCode? (typeCode t) = some t := by
  cases t <;> decide

/-- **The message of a family is read as the family's.** -/
theorem FamilyMessage.ofBytes?_encode (f : Family) (hlen : (encode (familyFields f)).length < UInt64.size) :
    FamilyMessage.ofBytes? (encode (familyFields f)) = some (.ofFamily f) := by
  have hcode : typeCode f.type < UInt64.size := Nat.lt_trans (typeCode_lt f.type) (by decide)
  have hmetric := length_encode_metric_lt f.name f.help f.metrics hlen
  have hread := FamilyMessage.ofBytes?_encode_fields f.name f.help f.metrics hcode (fun m _ => inRange_metricFields m)
    hlen fun m hm => MetricMessage.read?_metricFields (hmetric m hm)
  rwa [signed32_typeCode] at hread

end MetricGateway.Protobuf
