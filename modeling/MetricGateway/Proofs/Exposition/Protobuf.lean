import MetricGateway.Proofs.TextFormat.Families

/-!
# Protobuf loses nothing that can be read

Whatever a reader accepted, in either format, can be written to protobuf family by family, and what was written is read
as exactly the same families in the same order (`read_protobuf_of_read`).
-/

namespace MetricGateway.ExpositionFormat

/-- The families that a reader gives have different names and can be exchanged, and nothing of them changes when they
are read back. -/
theorem exchangeable_of_read {format : ExpositionFormat} {payload : List UInt8} {fs : List Family}
    (h : format.read payload = .ok fs) :
    (fs.map Family.name).Nodup ∧ ∀ f ∈ fs, f.Exchangeable ∧ f.metrics ≠ [] ∧ ∀ m ∈ f.metrics, m.reread = m := by
  cases format with
  | text =>
    obtain ⟨hnames, hfs⟩ := TextFormat.textual_of_read h
    exact ⟨hnames, fun f hf => ⟨(hfs f hf).1.exchangeable, (hfs f hf).2, (hfs f hf).1.reread⟩⟩
  | protobuf => exact Protobuf.exchangeable_of_read h

theorem mapM_encode {format : ExpositionFormat} {fs : List Family} (h : ∀ f ∈ fs, f.metrics ≠ []) :
    fs.mapM format.encode = .ok (fs.map fun f => (format.pieces f).flatten) :=
  Outcome.mapM_eq_ok fun f hf => if_neg (by simpa using h f hf)

/-- **Protobuf loses nothing that can be read.** A length is written in 64 bits, so every message must be shorter than
that, as it is in every memory that it fits in. -/
theorem read_protobuf_of_read {format : ExpositionFormat} {payload : List UInt8} {fs : List Family}
    (h : format.read payload = .ok fs) :
    ∃ encoded, fs.mapM protobuf.encode = .ok encoded ∧
      ((∀ message ∈ encoded, message.length < UInt64.size) → protobuf.read encoded.flatten = .ok fs) := by
  obtain ⟨hnames, hfs⟩ := exchangeable_of_read h
  refine ⟨_, mapM_encode fun f hf => (hfs f hf).2.1, fun hlen => ?_⟩
  have hbytes : (fs.map fun f => (protobuf.pieces f).flatten).flatten = fs.flatMap Protobuf.encodeFamily := by
    simp [pieces, List.flatMap]
  have hlen' : ∀ f ∈ fs, (Protobuf.encode (Protobuf.familyFields f)).length < UInt64.size := by
    intro f hf
    refine Nat.lt_of_le_of_lt ?_ (hlen _ (List.mem_map_of_mem hf))
    simp [pieces, Protobuf.encodeFamily, Protobuf.delimited]
  have hreread : (fs.map Family.reread).filter (!·.metrics.isEmpty) = fs := by
    have hmap : fs.map Family.reread = fs :=
      (List.map_congr_left fun f hf => Family.reread_eq_self (hfs f hf).2.2).trans (List.map_id _)
    rw [hmap, List.filter_eq_self]
    exact fun f hf => by simpa using (hfs f hf).2.1
  show Protobuf.read _ = _
  rw [hbytes, Protobuf.read_flatMap_encodeFamily (fun f hf => (hfs f hf).1) hnames hlen', hreread]

/-- A text whose samples are of several types. -/
def mixedText : List UInt8 :=
  Utf8.bytesOf <| "# HELP t Seconds\\n \n# TYPE t histogram\nt_bucket\x7ble=\"1\"\x7d 2\nt_sum -0\nt_count 3\n" ++
    "x\x7bjob=\"a\"\x7d NaN\n"

/-- The families of the text. -/
def mixedFamilies : List Family :=
  [{ name := "t", help := some "Seconds\n", type := .histogram, metrics := [{
      labels := .empty
      value := .histogram ⟨3, .ofMagnitude true 0, [⟨(1 : Nat), 2⟩, ⟨.infinity false, 3⟩]⟩ }] },
    { name := "x", type := .untyped, metrics := [{
      labels := LabelSet.empty.insert ⟨"job", "a"⟩
      value := .untyped (.nan false) }] }]

theorem read_protobuf_of_read_mixedText :
    protobuf.read (mixedFamilies.flatMap Protobuf.encodeFamily) = .ok mixedFamilies := by
  have hread : text.read mixedText = .ok mixedFamilies := by decide +kernel
  obtain ⟨encoded, henc, hback⟩ := read_protobuf_of_read hread
  have hencoded : mixedFamilies.mapM protobuf.encode = .ok (mixedFamilies.map Protobuf.encodeFamily) := by
    decide +kernel
  rw [hencoded] at henc
  cases henc
  exact hback (by decide +kernel)

end MetricGateway.ExpositionFormat
