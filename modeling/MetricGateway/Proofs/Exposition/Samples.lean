import MetricGateway.Exposition
import MetricGateway.Proofs.Protobuf.Families
import MetricGateway.Proofs.TextFormat.Drafts

/-!
# One sample behind every metric that is read

A payload says nothing of the number of samples that a metric was combined from, so both readers make metrics of one
sample (`observations_of_read`).
-/

namespace MetricGateway

namespace TextFormat

/-- The single numbers of a draft have one sample each. -/
theorem kept_observations : Draft.Kept fun d => ∀ m ∈ d.metrics, m.observations = 1 where
  empty m hm := by cases hm
  help _ _ hd _ := hd
  type _ _ hd _ := hd
  sample d d' labels own value kind hd _ _ h := by
    generalize d.type.getD .untyped = type at h
    cases h with
    | number =>
      intro m hm
      rcases List.mem_append.mp hm with hm | hm
      · exact hd m hm
      · cases List.mem_singleton.mp hm
        rfl
    -- the other samples are gathered elsewhere
    | _ => exact hd

theorem observations_of_family? {d : Draft} {name : String} {f : Family} (hd : ∀ m ∈ d.metrics, m.observations = 1)
    (h : d.family? name = some f) : ∀ m ∈ f.metrics, m.observations = 1 := by
  unfold Draft.family? at h
  split at h
  · cases h
  · dsimp only at h
    split at h
    · cases h
    · cases h
      intro m hm
      rcases List.mem_append.mp hm with hm | hm
      · rcases List.mem_append.mp hm with hm | hm
        · exact hd m hm
        · obtain ⟨e, -, rfl⟩ := List.mem_map.mp hm
          rfl
      · obtain ⟨e, -, rfl⟩ := List.mem_map.mp hm
        rfl

end TextFormat

theorem Protobuf.observations_of_metricOf {family : String} {type : MetricType} {message : MetricMessage}
    {m : Metric Binary64} (h : metricOf family type message = .ok m) : m.observations = 1 := by
  unfold metricOf at h
  split at h
  · cases h
  · obtain ⟨v, -, h⟩ := Outcome.bind_eq_ok_iff.mp h
    cases h
    rfl

/-- A metric that was read has one sample. -/
theorem ExpositionFormat.observations_of_read {format : ExpositionFormat} {payload : List UInt8} {fs : List Family}
    (h : format.read payload = .ok fs) {f : Family} (hf : f ∈ fs) {m : Metric Binary64} (hm : m ∈ f.metrics) :
    m.observations = 1 := by
  cases format with
  | text =>
    obtain ⟨d, name, hd, hfam⟩ := TextFormat.exists_draft_of_read TextFormat.kept_observations h hf
    exact TextFormat.observations_of_family? hd hfam m hm
  | protobuf =>
    obtain ⟨message, hmsg⟩ := Protobuf.exists_message_of_read h hf hm
    exact Protobuf.observations_of_metricOf hmsg

end MetricGateway
