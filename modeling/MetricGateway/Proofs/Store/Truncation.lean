import MetricGateway.Proofs.Exposition.Protobuf
import MetricGateway.Proofs.Store.Rendering
import MetricGateway.Proofs.Text.ByteOrder

/-!
# Renderings that are cut off

A sink with little room takes the first bytes of what it is given, however they are divided into pieces
(`Sink.exists_writeAll`). So a store is rendered into such a sink up to the family that does not fit
(`Store.exists_renderEach_of_lt`), which is the one that the failure names, and the families behind it have no influence
(`Store.renders_first_bytes`).
-/

namespace MetricGateway

namespace Sink

theorem written_mk (room : Option Nat) (piece : List UInt8) (taken : List (List UInt8)) :
    written ⟨room, piece :: taken⟩ = written ⟨room, taken⟩ ++ piece := by
  simp [written]

/-- A sink with little room takes the first bytes of a piece. -/
theorem exists_write {k : Sink} {n : Nat} (hk : k.room = some n) (piece : List UInt8) :
    ∃ k' : Sink, k.write piece = (k', decide (piece.length ≤ n)) ∧ k'.room = some (n - piece.length) ∧
      k'.written = k.written ++ piece.take n := by
  obtain ⟨room, taken⟩ := k
  cases hk
  rw [write]
  dsimp only
  split
  next hfit => exact ⟨_, by rw [decide_eq_true hfit], rfl, by rw [List.take_of_length_le hfit]; exact written_mk ..⟩
  next hfit =>
    have hnone : n - piece.length = 0 := by omega
    exact ⟨⟨some 0, piece.take n :: taken⟩, by rw [decide_eq_false hfit], by rw [hnone], written_mk ..⟩

/-- A sink with little room takes the first bytes, however they are divided into pieces. -/
theorem exists_writeAll {k : Sink} {n : Nat} (hk : k.room = some n) (pieces : List (List UInt8)) :
    ∃ k' : Sink, k.writeAll pieces = (k', decide (pieces.flatten.length ≤ n)) ∧
      k'.room = some (n - pieces.flatten.length) ∧ k'.written = k.written ++ pieces.flatten.take n := by
  induction pieces generalizing k n with
  | nil => exact ⟨k, by simp [writeAll], by simpa using hk, by simp⟩
  | cons piece pieces ih =>
    obtain ⟨k₁, hwrite, hroom₁, hwritten₁⟩ := exists_write hk piece
    rw [writeAll, hwrite, List.flatten_cons, List.length_append, List.take_append]
    by_cases hfit : piece.length ≤ n
    · obtain ⟨k₂, hrest, hroom₂, hwritten₂⟩ := ih hroom₁
      have hsame : pieces.flatten.length ≤ n - piece.length ↔ piece.length + pieces.flatten.length ≤ n := by omega
      refine ⟨k₂, ?_, by rw [hroom₂, Nat.sub_add_eq], by rw [hwritten₂, hwritten₁, List.append_assoc]⟩
      rw [decide_eq_true hfit]
      simpa only [hsame] using hrest
    · have hlong : ¬ piece.length + pieces.flatten.length ≤ n := by omega
      have hnone : n - piece.length = 0 ∧ n - (piece.length + pieces.flatten.length) = 0 := by omega
      refine ⟨k₁, ?_, by rw [hroom₁, hnone.1, hnone.2], by rw [hwritten₁, hnone.1, List.take_zero, List.append_nil]⟩
      rw [decide_eq_false hfit, decide_eq_false hlong]

end Sink

namespace Store

/-- The encodings of families, one behind the other. -/
def bytesOf (format : ExpositionFormat) (fs : List Family) : List UInt8 := fs.flatMap fun f => (format.pieces f).flatten

variable {format : ExpositionFormat}

theorem bytesOf_append (fs gs : List Family) : bytesOf format (fs ++ gs) = bytesOf format fs ++ bytesOf format gs :=
  List.flatMap_append

theorem flatten_pieces (fs : List Family) : (fs.flatMap format.pieces).flatten = bytesOf format fs := by
  rw [← List.flatMap_id, List.flatMap_assoc]
  simp only [List.flatMap_id, bytesOf]

/-- Families that fit are written, and the others are rendered behind them. -/
theorem exists_renderEach_append {k : Sink} {n : Nat} (hk : k.room = some n) {fs : List Family}
    (hfit : (bytesOf format fs).length ≤ n) :
    ∃ k' : Sink, (∀ gs, renderEach format k (fs ++ gs) = renderEach format k' gs) ∧
      k'.room = some (n - (bytesOf format fs).length) ∧ k'.written = k.written ++ bytesOf format fs := by
  induction fs generalizing k n with
  | nil => exact ⟨k, fun _ => rfl, hk, by simp [bytesOf]⟩
  | cons f fs ih =>
    have hbytes : bytesOf format (f :: fs) = (format.pieces f).flatten ++ bytesOf format fs := List.flatMap_cons
    rw [hbytes, List.length_append] at hfit ⊢
    obtain ⟨k₁, hwrite, hroom₁, hwritten₁⟩ := Sink.exists_writeAll hk (format.pieces f)
    obtain ⟨k₂, hrest, hroom₂, hwritten₂⟩ := ih hroom₁ (by omega)
    refine ⟨k₂, fun gs => ?_, by rw [hroom₂, Nat.sub_add_eq], ?_⟩
    · rw [List.cons_append, renderEach, hwrite, decide_eq_true (by omega)]
      exact hrest gs
    · rw [hwritten₂, hwritten₁, List.take_of_length_le (by omega), List.append_assoc]

/-- If families do not fit, one of them is the first that does not. -/
theorem exists_split {fs : List Family} {n : Nat} (h : n < (bytesOf format fs).length) :
    ∃ before f behind, fs = before ++ f :: behind ∧ (bytesOf format before).length ≤ n ∧
      n < (bytesOf format (before ++ [f])).length := by
  induction fs using List.reverseRecOn with
  | nil => simp [bytesOf] at h
  | append_singleton fs f ih =>
    by_cases hn : n < (bytesOf format fs).length
    · obtain ⟨before, g, behind, rfl, hbefore, hg⟩ := ih hn
      exact ⟨before, g, behind ++ [f], by simp, hbefore, hg⟩
    · exact ⟨fs, f, [], rfl, by omega, h⟩

/-- Rendering stops at the family that does not fit, whatever comes behind it. -/
theorem exists_renderEach_of_lt {k : Sink} {n : Nat} (hk : k.room = some n) {before : List Family} {f : Family}
    (hbefore : (bytesOf format before).length ≤ n) (hf : n < (bytesOf format (before ++ [f])).length) :
    ∃ k' : Sink, (∀ behind, renderEach format k (before ++ f :: behind) = (k', .error ⟨f.name⟩)) ∧
      k'.written = k.written ++ (bytesOf format (before ++ [f])).take n := by
  have hbytes : bytesOf format [f] = (format.pieces f).flatten := by simp [bytesOf]
  rw [bytesOf_append, hbytes] at hf ⊢
  rw [List.length_append] at hf
  obtain ⟨k₁, hrest, hroom, hwritten₁⟩ := exists_renderEach_append hk hbefore
  obtain ⟨k₂, hwrite, -, hwritten₂⟩ := Sink.exists_writeAll hroom (format.pieces f)
  refine ⟨k₂, fun behind => ?_, ?_⟩
  · rw [hrest, renderEach, hwrite, decide_eq_false (by omega)]
  · rw [hwritten₂, hwritten₁, List.take_append, List.take_of_length_le hbefore, List.append_assoc]

theorem mem_shownFamilies_iff_family? {s : Store} (hs : s.Sound) {f : Family} :
    f ∈ s.shownFamilies ↔ s.family? f.name = some f ∧ f.metrics ≠ [] := by
  rw [mem_shownFamilies_iff, family?, Option.map_eq_some_iff]
  refine and_congr_left fun _ => ⟨?_, fun ⟨stored, h⟩ => ⟨f.name, stored, h⟩⟩
  rintro ⟨name, stored, hstored, rfl⟩
  exact ⟨stored, (hs name stored hstored).1 ▸ hstored, rfl⟩

/-- **A rendering is cut off cleanly.** What is rendered are the families with metrics in the order of the bytes of
their names. Where the room ends, the rendering fails with the name of the family that the next byte belongs to. -/
theorem renders_first_bytes (o : StoreOptions) (ops : List Operation) (format : ExpositionFormat) :
    let s := (new o).run ops
    let whole := bytesOf format s.shownFamilies
    (∀ f, f ∈ s.shownFamilies ↔ s.family? f.name = some f ∧ f.metrics ≠ []) ∧
      (s.shownFamilies.Pairwise fun f g => Utf8.bytesOf f.name < Utf8.bytesOf g.name) ∧
      (∀ f ∈ s.shownFamilies, format.encode f = .ok (bytesOf format [f])) ∧
      (∀ k : Sink, k.room = none →
        ∃ k', s.renderTo format k = (k', .ok ()) ∧ k'.written = k.written ++ whole) ∧
      ∀ (k : Sink) limit, k.room = some limit →
        (whole.length ≤ limit → ∃ k', s.renderTo format k = (k', .ok ()) ∧ k'.written = k.written ++ whole) ∧
        (limit < whole.length → ∃ before f behind, s.shownFamilies = before ++ f :: behind ∧
          (bytesOf format before).length ≤ limit ∧ limit < (bytesOf format (before ++ [f])).length ∧
          ∃ k', s.renderTo format k = (k', .error ⟨f.name⟩) ∧ k'.written = k.written ++ whole.take limit ∧
            ∀ later, renderEach format k (before ++ f :: later) = (k', .error ⟨f.name⟩)) := by
  intro s whole
  have hsound : s.Sound := sound_run o ops
  refine ⟨fun f => mem_shownFamilies_iff_family? hsound, ?_, fun f hf => ?_, fun k hk => ?_,
    fun k limit hk => ⟨fun hfit => ?_, fun hlong => ?_⟩⟩
  · exact (pairwise_shown hsound).imp Utf8.bytesOf_lt_iff.mpr
  · have hne := ((mem_shownFamilies_iff_family? hsound).mp hf).2
    rw [ExpositionFormat.encode, if_neg (by simpa using hne), bytesOf, List.flatMap_singleton]
  · obtain ⟨room, taken⟩ := k
    cases hk
    refine ⟨_, renderEach_unlimited format taken s.shownFamilies, ?_⟩
    rw [Sink.written, Sink.written, List.reverse_append, List.reverse_reverse, List.flatten_append, flatten_pieces]
  · obtain ⟨k', hrest, -, hwritten⟩ := exists_renderEach_append hk hfit
    refine ⟨k', ?_, hwritten⟩
    have hall := hrest []
    rw [List.append_nil] at hall
    exact hall
  · obtain ⟨before, f, behind, hshown, hbefore, hf⟩ := exists_split hlong
    obtain ⟨k', hstops, hwritten⟩ := exists_renderEach_of_lt hk hbefore hf
    refine ⟨before, f, behind, hshown, hbefore, hf, k', ?_, ?_, hstops⟩
    · rw [renderTo, hshown, hstops]
    · have hwhole : whole = bytesOf format (before ++ [f]) ++ bytesOf format behind := by
        rw [← bytesOf_append, List.append_assoc, List.singleton_append, ← hshown]
      rw [hwritten, hwhole, List.take_append_of_le_length (Nat.le_of_lt hf)]

end Store
end MetricGateway
