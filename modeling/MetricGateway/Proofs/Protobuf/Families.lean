import MetricGateway.Proofs.Protobuf.Exchange

/-!
# The families of a protobuf payload

Messages of one name and one type are put together, so the families have different names, and every metric of a family
is that of some metric message under the name and the type of the family (`exists_message_of_read`). Its value is of
that type and in normal form (`value_of_metricOf`), and so the families can be exchanged (`exchangeable_of_read`).
-/

namespace MetricGateway.Protobuf

/-- Every metric is that of a message under the name and the type of its family. -/
def FromMessages (f : Family) : Prop := ∀ m ∈ f.metrics, ∃ message, metricOf f.name f.type message = .ok m

theorem fromMessages_familyOf {m : FamilyMessage} {f : Family} (h : familyOf m = .ok f) : FromMessages f := by
  unfold familyOf at h
  split at h
  · cases h
  · split at h
    · cases h
    next type _ =>
      obtain ⟨ms, hms, h⟩ := Outcome.bind_eq_ok_iff.mp h
      cases h
      intro x hx
      obtain ⟨message, -, hx⟩ := Outcome.mem_of_mapM_eq_ok hms hx
      exact ⟨message, hx⟩

theorem ne_empty_of_familyOf {m : FamilyMessage} {f : Family} (h : familyOf m = .ok f) : f.name ≠ "" := by
  unfold familyOf at h
  split at h
  · cases h
  next hname =>
    split at h
    · cases h
    · obtain ⟨ms, -, h⟩ := Outcome.bind_eq_ok_iff.mp h
      cases h
      exact hname

/-- What the families of a sequence keep: they have different names, none of which is empty, each stands under its own
name, and each is made of messages. -/
structure Families.Read (fs : Families) : Prop where
  nodup : (fs.map Prod.fst).Nodup
  named : ∀ e ∈ fs, e.2.name = e.1 ∧ e.1 ≠ ""
  fromMessages : ∀ e ∈ fs, FromMessages e.2

theorem Families.Read.append {fs : Families} (hfs : fs.Read) {f : Family} (hname : f.name ≠ "")
    (hf : FromMessages f) (hnew : f.name ∉ fs.map Prod.fst) : Families.Read (fs ++ [(f.name, f)]) := by
  refine ⟨?_, fun e he => ?_, fun e he => ?_⟩
  · have hkeys : Appearance.alter f.name f id fs = fs ++ [(f.name, f)] := Appearance.alter_of_not_mem f id hnew
    exact hkeys ▸ Appearance.nodup_alter _ _ hfs.nodup
  · rcases List.mem_append.mp he with he | he
    · exact hfs.named e he
    · cases List.mem_singleton.mp he
      exact ⟨rfl, hname⟩
  · rcases List.mem_append.mp he with he | he
    · exact hfs.fromMessages e he
    · cases List.mem_singleton.mp he
      exact hf

/-- The metrics of a family that is sent again were read under the same name and type. -/
theorem Families.Read.extend {fs : Families} (hfs : fs.Read) {f existing : Family} (hf : FromMessages f)
    (hx : fs.lookup f.name = some existing) (htype : existing.type = f.type) :
    Families.Read
      (Appearance.alter f.name existing (fun e => { e with metrics := e.metrics ++ f.metrics }) fs) := by
  have hmem := Appearance.mem_of_lookup hx
  refine ⟨Appearance.nodup_alter _ _ hfs.nodup, fun e he => ?_, fun e he => ?_⟩
  · rcases Appearance.mem_alter he with he | rfl
    · exact hfs.named e he
    · rw [hx, Option.getD_some]
      exact hfs.named (f.name, existing) hmem
  · rcases Appearance.mem_alter he with he | rfl
    · exact hfs.fromMessages e he
    · have hname : existing.name = f.name := (hfs.named _ hmem).1
      simp only [hx, Option.getD_some]
      intro m hm
      rcases List.mem_append.mp hm with hm | hm
      · exact hfs.fromMessages _ hmem m hm
      · obtain ⟨message, hmsg⟩ := hf m hm
        exact ⟨message, by rw [hname, htype]; exact hmsg⟩

theorem Families.Read.addFamily {fs fs' : Families} (hfs : fs.Read) {f : Family} (hname : f.name ≠ "")
    (hf : FromMessages f) (h : Protobuf.addFamily fs f = .ok fs') : fs'.Read := by
  rcases addFamily_eq_ok_iff.mp h with ⟨hnew, rfl⟩ | ⟨existing, hx, htype, rfl⟩
  · exact hfs.append hname hf hnew
  · exact hfs.extend hf hx htype

theorem Families.Read.addMessage {fs fs' : Families} (hfs : fs.Read) {bytes : Option (List UInt8)}
    (h : Protobuf.addMessage fs bytes = .ok fs') : fs'.Read := by
  unfold Protobuf.addMessage at h
  split at h
  · cases h
  · split at h
    · cases h
    · obtain ⟨f, hf, h⟩ := Outcome.bind_eq_ok_iff.mp h
      exact hfs.addFamily (ne_empty_of_familyOf hf) (fromMessages_familyOf hf) h

theorem exists_families_of_read {payload : List UInt8} {fs : List Family} (h : read payload = .ok fs) :
    ∃ es : Families, es.Read ∧ fs = (es.map Prod.snd).filter (!·.metrics.isEmpty) := by
  obtain ⟨es, hes, h⟩ := Outcome.bind_eq_ok_iff.mp h
  cases h
  refine ⟨es, ?_, rfl⟩
  exact Outcome.foldlM_invariant (fun _ _ _ hs ht => Families.Read.addMessage hs ht) ⟨by simp, by simp, by simp⟩ hes

/-- Every metric that was read is that of a message under the name and the type of its family. -/
theorem exists_message_of_read {payload : List UInt8} {fs : List Family} (h : read payload = .ok fs) {f : Family}
    (hf : f ∈ fs) {m : Metric Binary64} (hm : m ∈ f.metrics) : ∃ message, metricOf f.name f.type message = .ok m := by
  obtain ⟨es, hes, rfl⟩ := exists_families_of_read h
  obtain ⟨e, he, rfl⟩ := List.mem_map.mp (List.mem_filter.mp hf).1
  exact hes.fromMessages e he m hm

/-! ## Values -/

theorem value_of_valueOf {family : String} {type : MetricType} {m : MetricMessage} {v : MetricValue Binary64}
    (h : valueOf family type m = .ok v) : v.type = type ∧ v.Ordered ∧ v.normalize = v := by
  cases type with
  | counter | gauge | untyped =>
    cases h
    exact ⟨rfl, trivial, rfl⟩
  | histogram =>
    simp only [valueOf] at h
    split at h
    · cases h
    next hany =>
      cases h
      have hord : m.histogram.Ordered := by simpa [Histogram.Ordered] using hany
      exact ⟨rfl, Histogram.ordered_normalize hord, congrArg _ (Histogram.normalize_normalize hord)⟩
  | summary =>
    simp only [valueOf] at h
    split at h
    · cases h
    next hany =>
      cases h
      have hord : m.summary.Ordered := by simpa [Summary.Ordered] using hany
      exact ⟨rfl, Summary.ordered_normalize hord, congrArg _ (Summary.normalize_normalize _)⟩

theorem value_of_metricOf {family : String} {type : MetricType} {message : MetricMessage} {m : Metric Binary64}
    (h : metricOf family type message = .ok m) : m.value.type = type ∧ m.value.Ordered ∧ m.reread = m := by
  unfold metricOf at h
  split at h
  · cases h
  next labels _ =>
    obtain ⟨v, hv, h⟩ := Outcome.bind_eq_ok_iff.mp h
    cases h
    obtain ⟨htype, hord, hnormal⟩ := value_of_valueOf hv
    exact ⟨htype, hord, congrArg (fun v => ({ labels, value := v } : Metric Binary64)) hnormal⟩

/-- **The families of a protobuf payload have different names and can be exchanged.** -/
theorem exchangeable_of_read {payload : List UInt8} {fs : List Family} (h : read payload = .ok fs) :
    (fs.map Family.name).Nodup ∧ ∀ f ∈ fs, f.Exchangeable ∧ f.metrics ≠ [] ∧ ∀ m ∈ f.metrics, m.reread = m := by
  have hmessage : ∀ f ∈ fs, ∀ m ∈ f.metrics, _ := fun f hf m hm => exists_message_of_read h hf hm
  obtain ⟨es, hes, rfl⟩ := exists_families_of_read h
  refine ⟨?_, fun f hf => ?_⟩
  · have hnames : (es.map Prod.snd).map Family.name = es.map Prod.fst := by
      rw [List.map_map]
      exact List.map_congr_left fun e he => (hes.named e he).1
    exact (hnames ▸ hes.nodup).sublist (List.filter_sublist.map _)
  · obtain ⟨hmem, hne⟩ := List.mem_filter.mp hf
    obtain ⟨e, he, rfl⟩ := List.mem_map.mp hmem
    obtain ⟨hname, hnonempty⟩ := hes.named e he
    have hvalue : ∀ m ∈ e.2.metrics, m.value.type = e.2.type ∧ m.value.Ordered ∧ m.reread = m := by
      intro m hm
      obtain ⟨message, hmsg⟩ := hmessage _ hf m hm
      exact value_of_metricOf hmsg
    exact ⟨⟨hname ▸ hnonempty, fun m hm => (hvalue m hm).1, fun m hm => (hvalue m hm).2.1⟩, by simpa using hne,
      fun m hm => (hvalue m hm).2.2⟩

end MetricGateway.Protobuf
