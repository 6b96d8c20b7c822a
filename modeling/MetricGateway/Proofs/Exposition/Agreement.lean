import MetricGateway.Proofs.TextFormat.Takeover

/-!
# Where both formats say the same

Families that are written in the order of their names are read from text as they are from protobuf, but for their NaNs,
exactly if no family takes samples of another one, no help has padding at its end, and every count stands for a double
(`TextFormat.reads_iff`).
-/

namespace MetricGateway

theorem MetricValue.bare_plain_iff (v : MetricValue Binary64) : v.plain.Bare ↔ v.Bare := by
  cases v with
  | counter | gauge | untyped | histogram => exact .rfl
  | summary s => simp [plain, Bare, Summary.plain]

theorem MetricValue.bare_normalize_iff (v : MetricValue Binary64) : v.normalize.Bare ↔ v.Bare := by
  cases v with
  | counter | gauge | untyped | histogram => exact .rfl
  | summary s =>
    have hlen : (Sorted.sortBy (compareOn Quantile.share) s.quantiles).length = s.quantiles.length :=
      (Sorted.perm_sortBy _).length_eq
    simp only [normalize, Bare, Summary.normalize, ne_eq, ← List.length_eq_zero_iff, hlen]

theorem Family.plain_printed (f : Family) : f.printed.plain = f.printed := by
  have hmetric : ∀ m : Metric Binary64, { m.printed with value := m.printed.value.plain } = m.printed := by
    intro m
    simp only [Metric.printed, MetricValue.printed, MetricValue.plain_plain]
  rw [plain, printed]
  simp [hmetric]

namespace TextFormat

/-- A family that is read as another one is said to be has its samples. -/
theorem bare_of_plain_eq {f g : Family} (h : g.plain = f.reread.plain) (hf : ∃ m ∈ f.metrics, m.value.Bare) :
    g.name = f.name ∧ ∃ m ∈ g.metrics, m.value.Bare := by
  obtain ⟨m, hm, hbare⟩ := hf
  have hname : g.plain.name = f.reread.plain.name := congrArg Family.name h
  refine ⟨hname, ?_⟩
  have hmem : { m.reread with value := m.reread.value.plain } ∈ g.plain.metrics := by
    rw [h]
    exact List.mem_map_of_mem (List.mem_map_of_mem hm)
  obtain ⟨m', hm', heq⟩ := List.mem_map.mp hmem
  refine ⟨m', hm', ?_⟩
  have hvalue : m'.value.plain = m.value.normalize.plain := congrArg Metric.value heq
  rwa [← MetricValue.bare_plain_iff, hvalue, MetricValue.bare_plain_iff, MetricValue.bare_normalize_iff]

/-- **Where texts say what families say.** -/
theorem reads_iff {fs : List Family} (hfs : ∀ f ∈ fs, f.Writable) (hnames : fs.Pairwise fun f g => f.name < g.name) :
    (∃ gs, read ((fs.flatMap familyLines).flatMap Utf8.encode) = .ok gs ∧
      gs.map Family.plain = (fs.map Family.reread).map Family.plain) ↔
    (∀ f ∈ fs, ∀ g ∈ fs, ¬ g.Takes f) ∧ ∀ f ∈ fs, f.Settled ∧ f.Rounded := by
  have hnodup : (fs.map Family.name).Nodup := List.pairwise_map.mpr (hnames.imp fun h => String.ne_of_lt h)
  constructor
  · rintro ⟨gs, hread, hgs⟩
    have hfree : ∀ f ∈ fs, ∀ g ∈ fs, ¬ g.Takes f := by
      refine not_takes_of_read hfs hnames hread fun f hf hbare => ?_
      have hmem : f.reread.plain ∈ gs.map Family.plain := by
        rw [hgs]
        exact List.mem_map_of_mem (List.mem_map_of_mem hf)
      obtain ⟨g, hg, heq⟩ := List.mem_map.mp hmem
      exact ⟨g, hg, bare_of_plain_eq heq hbare⟩
    refine ⟨hfree, fun f hf => ?_⟩
    rw [read_flatMap_familyLines hfs hnodup hfree] at hread
    cases hread
    rw [List.map_map, List.map_map] at hgs
    have heq : f.printed.plain = f.reread.plain := List.map_inj_left.mp hgs f hf
    rwa [Family.plain_printed, Family.printed_eq_iff] at heq
  · rintro ⟨hfree, hkept⟩
    refine ⟨_, read_flatMap_familyLines hfs hnodup hfree, ?_⟩
    rw [List.map_map, List.map_map]
    refine List.map_congr_left fun f hf => ?_
    show f.printed.plain = f.reread.plain
    rw [Family.plain_printed, Family.printed_eq_iff]
    exact hkept f hf

end TextFormat
end MetricGateway
