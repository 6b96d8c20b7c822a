import MetricGateway.Proofs.Store.Independence
import MetricGateway.Proofs.TextFormat.Reordering
import MetricGateway.Store.Render

/-!
# The order of samples and labels does not matter

The metrics of a pushed family are sorted by their labels, so a family that is accepted is stored in the same way
whatever the order of its metrics (`prepare_of_alike`), and families with different names are independent. So a text
whose samples and labels are rearranged leads to the same store as the text itself (`samples_in_any_order`).
-/

namespace MetricGateway

theorem Family.Alike.canonical {f g : Family} (h : f.Alike g) (injected : List Label) (ignored : IgnoredNames) :
    (f.canonical injected ignored).Alike (g.canonical injected ignored) :=
  { h with metrics := h.metrics.map _ }

theorem Family.Alike.checkReserved {f g : Family} (h : f.Alike g) (hf : f.checkReserved = .ok ()) :
    g.checkReserved = .ok () := by
  rw [checkReserved_eq_ok_iff] at hf ⊢
  intro m hm
  rw [← h.type]
  exact hf m (h.metrics.mem_iff.mpr hm)

theorem Family.Alike.checkSeries {f g : Family} (h : f.Alike g) (hf : f.checkSeries = .ok ()) :
    g.checkSeries = .ok () := by
  rw [checkSeries_eq_ok_iff] at hf ⊢
  rw [← h.name]
  exact ⟨fun m hm => hf.1 m (h.metrics.mem_iff.mpr hm), h.metrics.pairwise hf.2 Ne.symm⟩

/-- Metrics with different labels are sorted in the same way whatever their order. -/
theorem Family.Alike.sortMetrics_eq {f g : Family} (h : f.Alike g) (hf : f.checkSeries = .ok ()) :
    f.sortMetrics = g.sortMetrics := by
  have hmetrics := (Rearranged.of_perm h.metrics (List.pairwise_map.mpr (labels_ne_of_checkSeries hf))).sortBy_eq
  obtain ⟨name, help, type, metrics⟩ := f
  obtain ⟨name', help', type', metrics'⟩ := g
  obtain ⟨rfl, rfl, rfl, -⟩ := h
  exact congrArg (Family.mk name help type) hmetrics

theorem map_name_of_alike {fs gs : List Family} (h : List.Forall₂ Family.Alike fs gs) :
    fs.map Family.name = gs.map Family.name := by
  induction h with
  | nil => rfl
  | cons hfg _ ih => rw [List.map_cons, List.map_cons, hfg.name, ih]

namespace Store

variable {s : Store} {injected : List Label}

theorem prepare_of_alike {f f' g : Family} (h : f.Alike f') (hg : s.prepare injected f = .ok g) :
    s.prepare injected f' = .ok g := by
  rw [prepare_eq_ok_iff] at hg ⊢
  obtain ⟨hreserved, hseries, rfl⟩ := hg
  have hcanonical := h.canonical injected s.options.ignored
  exact ⟨hcanonical.checkReserved hreserved, hcanonical.checkSeries hseries, hcanonical.sortMetrics_eq hseries⟩

theorem ingestFamily_of_alike {t : Store} {f f' : Family} (h : f.Alike f') (hf : s.ingestFamily injected f = .ok t) :
    s.ingestFamily injected f' = .ok t := by
  obtain ⟨g, hg, ht⟩ := Outcome.bind_eq_ok_iff.mp hf
  exact Outcome.bind_eq_ok_iff.mpr ⟨g, prepare_of_alike h hg, ht⟩

theorem ingestEach_of_alike {fs gs : List Family} (h : List.Forall₂ Family.Alike fs gs)
    (hfs : (s.ingestEach injected fs).2 = []) : s.ingestEach injected gs = s.ingestEach injected fs := by
  induction h generalizing s with
  | nil => rfl
  | @cons f g fs gs hfg _ ih =>
    rw [ingestEach] at hfs ⊢
    rw [ingestEach]
    cases hf : s.ingestFamily injected f with
    | error e => simp [hf] at hfs
    | ok t =>
      rw [ingestFamily_of_alike hfg hf]
      rw [hf] at hfs
      exact ih hfs

/-- Families that are all accepted lead to the same store in whatever order their metrics are. -/
theorem ingestFamilies_of_alike {now : Instant} {fs gs : List Family} (h : List.Forall₂ Family.Alike fs gs) {n : Nat}
    (hfs : (s.ingestFamilies now injected fs).2 = .ok n) :
    s.ingestFamilies now injected gs = s.ingestFamilies now injected fs := by
  unfold ingestFamilies at hfs ⊢
  dsimp only at hfs ⊢
  have hnone : ((s.recordPush now injected).ingestEach injected fs).2 = [] := by
    by_contra hne
    rw [if_neg hne] at hfs
    cases hfs
  rw [ingestEach_of_alike h hnone, h.length_eq]

/-- **Samples and labels come in any order.** A text that describes its families first and names no label of a sample
twice is pushed, and accepted. Then it leads to the same store and the same renderings when its samples are rearranged,
those at one place keeping their order, and the labels of each sample are given in any order. -/
theorem samples_in_any_order (s : Store) (now : Instant) (injected : List Label) {p q : List UInt8}
    {cs ds : List Char} (hp : Utf8.decode p = .ok cs) (hq : Utf8.decode q = .ok ds)
    (hfirst : TextFormat.DescribedFirst cs) (honce : TextFormat.NamesLabelsOnce cs)
    (hds : TextFormat.RearrangedText cs ds) {n : Nat} (hn : (s.ingest now injected .text p).2 = .ok n) :
    (s.ingest now injected .text q).2 = .ok n ∧
      (s.ingest now injected .text q).1 = (s.ingest now injected .text p).1 ∧
      ∀ format, (s.ingest now injected .text q).1.render format = (s.ingest now injected .text p).1.render format := by
  suffices heq : s.ingest now injected .text q = s.ingest now injected .text p by
    rw [heq]
    exact ⟨hn, rfl, fun _ => rfl⟩
  have hreadp : ExpositionFormat.text.read p = TextFormat.readText cs := by
    show TextFormat.read p = _
    rw [TextFormat.read, hp]
  have hreadq : ExpositionFormat.text.read q = TextFormat.readText ds := by
    show TextFormat.read q = _
    rw [TextFormat.read, hq]
  unfold ingest at hn ⊢
  cases hfs : TextFormat.readText cs with
  | error fault =>
    rw [hreadp, hfs] at hn
    cases hn
  | ok fs =>
    obtain ⟨gs, gs', hgs', halike, hperm⟩ := TextFormat.readText_rearranged hfirst honce hds hfs
    rw [hreadp, hfs] at hn ⊢
    rw [hreadq, hgs']
    dsimp only at hn ⊢
    have hnames : (gs.map Family.name).Nodup := by
      rw [← map_name_of_alike halike]
      exact (TextFormat.textual_of_read (hreadp.trans hfs)).1
    obtain ⟨hstore, hanswer⟩ := s.ingestFamilies_rearranged now injected (Rearranged.of_perm hperm hnames)
    rw [ingestFamilies_of_alike halike hn] at hstore hanswer
    rcases hanswer with hanswer | ⟨es, es', hrefused, -⟩
    · exact Prod.ext hstore hanswer.symm
    · rw [hn] at hrefused
      cases hrefused

/-- A text with a histogram and two families that are not described. -/
def hitsText : String :=
  "# TYPE h histogram\nh_bucket\x7ble=\"1\", path=\"/\"\x7d 1\nh_count\x7bpath=\"/\"\x7d 2\nhits 5\nx 1\n"

/-- The same samples from the last one to the first one, the labels of the bucket in the other order. -/
def reversedHitsText : String :=
  "# TYPE h histogram\n#\nx 1\nhits 5\nh_count\x7bpath=\"/\"\x7d 2\nh_bucket\x7b path=\"/\",le=\"1\"\x7d 1\n"

theorem rearrangedText_hitsText : TextFormat.RearrangedText hitsText.toList reversedHitsText.toList where
  describedFirst := by decide +kernel
  descriptions := by decide +kernel
  samples := by
    let others : List (List Char) := ["x 1", "hits 5", "h_count\x7bpath=\"/\"\x7d 2"].map String.toList
    let bucket (texts : List String) : List Char :=
      "h_bucket".toList ++ ([] ++ '{' :: ([','].intercalate (texts.map String.toList) ++ "\x7d 1".toList))
    have hds : TextFormat.sampleLinesOf reversedHitsText.toList = others ++ [bucket [" path=\"/\"", "le=\"1\""]] := by
      decide +kernel
    refine ⟨others ++ [bucket ["le=\"1\"", " path=\"/\""]], by decide +kernel, ?_⟩
    have htexts : List.Forall₂ (TextFormat.SpellsLabel (String.ofList "h_bucket".toList))
        ["le=\"1\"".toList, " path=\"/\"".toList] [⟨"le", "1"⟩, ⟨"path", "/"⟩] :=
      .cons ⟨[], by decide +kernel, rfl⟩ (.cons ⟨[], by decide +kernel, rfl⟩ .nil)
    rw [hds]
    refine List.rel_append (List.forall₂_same.mpr fun line _ => .refl line) (.cons ?_ .nil)
    exact .labels (by decide) rfl htexts (.swap _ _ [])

theorem samples_in_any_order_hitsText :
    let s := new {}
    let b : List Label := [⟨"job", "b"⟩]
    let p := Utf8.bytesOf hitsText
    let q := Utf8.bytesOf reversedHitsText
    ¬ TextFormat.read q = TextFormat.read p ∧ (s.ingest 1 b .text p).2 = .ok 3 ∧ (s.ingest 1 b .text q).2 = .ok 3 ∧
      (s.ingest 1 b .text q).1 = (s.ingest 1 b .text p).1 ∧
      ∀ format, (s.ingest 1 b .text q).1.render format = (s.ingest 1 b .text p).1.render format := by
  intro s b p q
  have hok : (s.ingest 1 b .text p).2 = .ok 3 := by decide +kernel
  refine ⟨by decide +kernel, hok, ?_⟩
  exact samples_in_any_order s 1 b (Utf8.decode_encode _) (Utf8.decode_encode _) (by decide +kernel) (by decide +kernel)
    rearrangedText_hitsText hok

end Store
end MetricGateway
