import MetricGateway.Proofs.Exposition.Agreement
import MetricGateway.Proofs.Store.Exchange
import MetricGateway.Store.Render

/-!
# What the renderings of a store say

A rendering is what the pieces of the shown families are, one behind the other (`render_eq`). In a store to which only
payloads were pushed these families can be exchanged and written (`writable_of_shown`) and stand in the order of their
names (`pairwise_shown`), so

- the protobuf rendering is read as the shown families in normal form, and
- the text rendering is read as the same families, but for their NaNs, exactly if no shown family takes samples of
  another one and no help has padding at its end, provided that all counts stand for doubles (`formats_agree_iff`).
-/

namespace MetricGateway

/-- A sink without a limit takes every piece. -/
theorem Sink.writeAll_unlimited (taken pieces : List (List UInt8)) :
    writeAll ⟨none, taken⟩ pieces = (⟨none, pieces.reverse ++ taken⟩, true) := by
  induction pieces generalizing taken with
  | nil => rfl
  | cons piece pieces ih =>
    rw [List.reverse_cons, List.append_assoc]
    exact ih (piece :: taken)

namespace Store

theorem renderEach_unlimited (format : ExpositionFormat) (taken : List (List UInt8)) (fs : List Family) :
    renderEach format ⟨none, taken⟩ fs = (⟨none, (fs.flatMap format.pieces).reverse ++ taken⟩, .ok ()) := by
  induction fs generalizing taken with
  | nil => rfl
  | cons f fs ih =>
    rw [renderEach, Sink.writeAll_unlimited]
    dsimp only
    rw [ih, List.flatMap_cons, List.reverse_append, List.append_assoc]

theorem render_eq (s : Store) (format : ExpositionFormat) :
    s.render format = s.shownFamilies.flatMap fun f => (format.pieces f).flatten := by
  unfold render renderTo
  rw [renderEach_unlimited, Sink.written, List.append_nil, List.reverse_reverse, ← List.flatMap_id, List.flatMap_assoc]
  simp only [List.flatMap_id]

theorem render_text_eq (s : Store) :
    s.render .text = (s.shownFamilies.flatMap TextFormat.familyLines).flatMap Utf8.encode := by
  rw [render_eq, List.flatMap_assoc]
  rfl

theorem render_protobuf_eq (s : Store) : s.render .protobuf = s.shownFamilies.flatMap Protobuf.encodeFamily := by
  have hpieces : ∀ f, (ExpositionFormat.protobuf.pieces f).flatten = Protobuf.encodeFamily f := fun _ =>
    List.append_nil _
  simp only [render_eq, hpieces]

/-! ## The shown families -/

theorem mem_shownFamilies_iff {s : Store} {f : Family} :
    f ∈ s.shownFamilies ↔ (∃ name stored, s.families.get? name = some stored ∧ stored.family = f) ∧ f.metrics ≠ [] := by
  simp only [shownFamilies, List.mem_filter, List.mem_map, Prod.exists, Table.mem_entries_iff]
  simp

/-- The shown families stand in the order of their names. -/
theorem pairwise_shown {s : Store} (hs : s.Sound) : s.shownFamilies.Pairwise fun f g => f.name < g.name := by
  refine List.Pairwise.filter _ (List.pairwise_map.mpr ?_)
  refine s.families.increasing.imp_of_mem fun {e d} he hd hlt => ?_
  rw [(hs _ _ ((Table.mem_entries_iff _ _ _).mp he)).1, (hs _ _ ((Table.mem_entries_iff _ _ _).mp hd)).1]
  exact hlt

theorem writable_of_shown {s : Store} (hs : s.Sound) (hex : s.Exchangeable) {f : Family} (hf : f ∈ s.shownFamilies) :
    f.Writable := by
  obtain ⟨⟨name, stored, hstored, rfl⟩, hne⟩ := mem_shownFamilies_iff.mp hf
  obtain ⟨-, hwf⟩ := hs name stored hstored
  have hex := hex name stored hstored
  refine ⟨hwf.name, hex.typed, fun m hm => ?_, hne, fun _ => ?_⟩
  · have hlabels := hwf.storable m hm
    have htype := hex.typed m hm
    exact ⟨fun l hl => spelled_of_isLabelName (hlabels.valid l hl), hex.ordered m hm,
      fun h => hlabels.ne_boundLabel (htype.symm.trans h), fun h => hlabels.ne_quantileLabel (htype.symm.trans h)⟩
  · exact List.pairwise_map.mpr (Sorted.Ascending.ne hwf.ascending)

/-! ## Reading the renderings -/

section Run

variable (o : StoreOptions) {ops : List Operation} (hops : ∀ op ∈ ops, op.given = [])
include hops

theorem read_render_protobuf (hlen : (((new o).run ops).render .protobuf).length < UInt64.size) :
    ExpositionFormat.protobuf.read (((new o).run ops).render .protobuf) =
      .ok (((new o).run ops).shownFamilies.map Family.reread) := by
  have hsound := sound_run o ops
  have hex := exchangeable_run o ops hops
  generalize (new o).run ops = s at *
  rw [render_protobuf_eq] at *
  have hnodup : (s.shownFamilies.map Family.name).Nodup :=
    List.pairwise_map.mpr ((pairwise_shown hsound).imp fun h => String.ne_of_lt h)
  have hfamily : ∀ f ∈ s.shownFamilies, f.Exchangeable := by
    intro f hf
    obtain ⟨⟨name, stored, hstored, rfl⟩, -⟩ := mem_shownFamilies_iff.mp hf
    exact hex name stored hstored
  have hmessage : ∀ f ∈ s.shownFamilies, (Protobuf.encode (Protobuf.familyFields f)).length < UInt64.size := by
    intro f hf
    have hdelimited : (Protobuf.encode (Protobuf.familyFields f)).length ≤ (Protobuf.encodeFamily f).length := by
      simp [Protobuf.encodeFamily, Protobuf.delimited]
    have hall : (Protobuf.encodeFamily f).length ≤ (s.shownFamilies.flatMap Protobuf.encodeFamily).length :=
      (List.sublist_flatten_of_mem (List.mem_map_of_mem hf)).length_le
    omega
  have hread := Protobuf.read_flatMap_encodeFamily hfamily hnodup hmessage
  have hshown : (s.shownFamilies.map Family.reread).filter (!·.metrics.isEmpty) =
      s.shownFamilies.map Family.reread := by
    refine List.filter_eq_self.mpr fun f hf => ?_
    obtain ⟨g, hg, rfl⟩ := List.mem_map.mp hf
    simpa [Family.reread] using (mem_shownFamilies_iff.mp hg).2
  rw [hshown] at hread
  exact hread

end Run

/-- Both renderings can be read, and they say the same but for the payloads of NaNs. -/
def FormatsAgree (s : Store) : Prop :=
  ∃ ft fp, ExpositionFormat.text.read (s.render .text) = .ok ft ∧
    ExpositionFormat.protobuf.read (s.render .protobuf) = .ok fp ∧ ft.map Family.plain = fp.map Family.plain

/-- **When the two formats describe the same state.** -/
theorem formats_agree_iff (o : StoreOptions) {ops : List Operation} (hops : ∀ op ∈ ops, op.given = [])
    (hlen : (((new o).run ops).render .protobuf).length < UInt64.size) :
    ExpositionFormat.protobuf.read (((new o).run ops).render .protobuf) =
        .ok (((new o).run ops).shownFamilies.map Family.reread) ∧
      ((∀ f ∈ ((new o).run ops).shownFamilies, f.Rounded) →
        (((new o).run ops).FormatsAgree ↔
          (∀ f ∈ ((new o).run ops).shownFamilies, ∀ g ∈ ((new o).run ops).shownFamilies, ¬ g.Takes f) ∧
            ∀ f ∈ ((new o).run ops).shownFamilies, f.Settled)) := by
  have hprotobuf := read_render_protobuf o hops hlen
  have hsound := sound_run o ops
  have hex := exchangeable_run o ops hops
  generalize (new o).run ops = s at *
  refine ⟨hprotobuf, fun hcounts => ?_⟩
  have hkept : (∀ f ∈ s.shownFamilies, f.Settled ∧ f.Rounded) ↔ ∀ f ∈ s.shownFamilies, f.Settled :=
    forall₂_congr fun f hf => and_iff_left (hcounts f hf)
  have hreads := TextFormat.reads_iff (fun f => writable_of_shown hsound hex) (pairwise_shown hsound)
  rw [hkept, ← render_text_eq] at hreads
  rw [← hreads]
  constructor
  · rintro ⟨ft, fp, htext, hfp, hagree⟩
    rw [hprotobuf] at hfp
    cases hfp
    exact ⟨ft, htext, hagree⟩
  · rintro ⟨ft, htext, hagree⟩
    exact ⟨ft, _, htext, hprotobuf, hagree⟩

/-- Two histograms of one series with different buckets, a series of another job that is NaN, and a sweep at which the
first job is stale. -/
def mixedPushes : List Operation := [
  .push 0 [⟨"job", "a"⟩] .text (Utf8.bytesOf ("# HELP t a\\\\b\n# TYPE t histogram\n" ++
    "t_bucket\x7ble=\"1\"\x7d 1\nt_sum 0.5\nt_count 1\n")),
  .push 7 [⟨"job", "b"⟩] .text (Utf8.bytesOf "x NaN\n"),
  .push 8 [⟨"job", "b"⟩] .protobuf (Protobuf.encodeFamily {
    name := "t"
    type := .histogram
    metrics := [{ labels := .empty, value := .histogram ⟨5, .zero, [⟨(2 : Nat), 3⟩]⟩ }] }),
  .push 9 [⟨"job", "b"⟩] .text (Utf8.bytesOf ("# TYPE t histogram\n" ++
    "t_bucket\x7ble=\"1\"\x7d 1\nt_sum 0.5\nt_count 1\n")),
  .sweep 10]

theorem formats_agree_mixedPushes :
    ((new { ttl := some 5 }).run mixedPushes).shownFamilies.map Family.name = ["t", "x"] ∧
      ((new { ttl := some 5 }).run mixedPushes).FormatsAgree :=
  ⟨by decide +kernel, ((formats_agree_iff { ttl := some 5 } (by decide) (by decide +kernel)).2
    (by decide +kernel)).mpr ⟨by decide +kernel, by decide +kernel⟩⟩

/-- A histogram, and a counter that bears its name with a suffix. -/
def suffixedPushes : List Operation := [
  .push 0 [] .text (Utf8.bytesOf "# TYPE x histogram\nx_bucket\x7ble=\"1\"\x7d 1\nx_sum 0.5\nx_count 1\n"),
  .push 1 [] .text (Utf8.bytesOf "# TYPE x_count counter\nx_count 5\n")]

theorem not_formats_agree_suffixedPushes : ¬ ((new {}).run suffixedPushes).FormatsAgree := by
  have hne : (ExpositionFormat.text.read (((new {}).run suffixedPushes).render .text)).toOption.map
        (List.map Family.plain) ≠
      (ExpositionFormat.protobuf.read (((new {}).run suffixedPushes).render .protobuf)).toOption.map
        (List.map Family.plain) := by decide +kernel
  rintro ⟨ft, fp, htext, hprotobuf, hagree⟩
  rw [htext, hprotobuf] at hne
  exact hne (congrArg some hagree)

end Store
end MetricGateway
