import MetricGateway.Proofs.TextFormat.Gathering

/-!
# Texts in another order

A text describes its families first if no description, which is a line that says the help or the type of a family,
comes after a sample (`DescribedFirst`). Such a text is read description by description, then sample by sample
(`foldlM_readTrimmed_eq`), so its samples can be rearranged, and the labels of each reordered (`RearrangedText`): the
families that are read differ in their order and in that of their metrics at most (`readText_rearranged`).
-/

namespace MetricGateway.TextFormat

/-- A line, without the blanks around it, says the help or the type of a family. -/
def isDescription : List Char → Bool
  | '#' :: r =>
    (Text.cutAt isGap (Text.trimStart r)).any fun (keyword, _) => keyword = "HELP".toList ∨ keyword = "TYPE".toList
  | _ => false

/-- The descriptions of a text, without the blanks around them. -/
def descriptionsOf (cs : List Char) : List (List Char) := ((linesOf cs).map Text.trim).filter isDescription

/-- No sample of the text comes before a description. -/
def DescribedFirst (cs : List Char) : Prop :=
  ((linesOf cs).map Text.trim).Pairwise fun a b => ¬ (isSample a = true ∧ isDescription b = true)

instance (cs : List Char) : Decidable (DescribedFirst cs) := inferInstanceAs (Decidable (List.Pairwise _ _))

/-- What the descriptions of a text say of its families. -/
def declared (cs : List Char) : Drafts := ((descriptionsOf cs).foldlM readTrimmed []).toOption.getD []

/-- The place of the sample that a line gives. -/
def Drafts.place? (ds : Drafts) (line : List Char) : Option Place := (ds.reading? line).map Reading.toPlace

/-- No sample of the text names a label twice. -/
def NamesLabelsOnce (cs : List Char) : Prop :=
  ∀ s ∈ (sampleLinesOf cs).filterMap (SampleLine.read · |>.toOption), (s.labels.map Label.name).Nodup

instance (cs : List Char) : Decidable (NamesLabelsOnce cs) := inferInstanceAs (Decidable (∀ s ∈ _, List.Nodup _))

/-- The second text has the descriptions of the first one, in front of the same samples in another order, in which those
at one place keep theirs, each with its labels in any order. -/
structure RearrangedText (cs ds : List Char) : Prop where
  describedFirst : DescribedFirst ds
  descriptions : descriptionsOf cs = descriptionsOf ds
  samples : ∃ lines, Rearranged (declared cs).place? (sampleLinesOf cs) lines ∧
    List.Forall₂ Reordered lines (sampleLinesOf ds)

/-! ## Descriptions first -/

/-- A line that neither describes a family nor gives a sample changes nothing. -/
theorem readTrimmed_of_idle (ds : Drafts) {line : List Char} (hsample : isSample line = false)
    (hdescription : isDescription line = false) : readTrimmed ds line = .ok ds := by
  unfold readTrimmed
  split
  · rfl
  next r =>
    unfold readComment
    split
    · rfl
    next keyword r' hcut =>
      simp only [isDescription, hcut, Option.any_some, decide_eq_false_iff_not, not_or] at hdescription
      rw [if_neg hdescription.1, if_neg hdescription.2]
  next hnil hcomment =>
    cases line with
    | nil => exact absurd rfl hnil
    | cons c r =>
      simp only [isSample, List.head?_cons, Option.any_some, bne_eq_false_iff_eq] at hsample
      exact absurd (hsample ▸ rfl) (hcomment r)

theorem isSample_of_isDescription {line : List Char} (h : isDescription line = true) : isSample line = false := by
  unfold isDescription at h
  split at h
  · rfl
  · cases h

/-- Lines that describe first are read description by description, then sample by sample. -/
theorem foldlM_readTrimmed_eq {lines : List (List Char)}
    (h : lines.Pairwise fun a b => ¬ (isSample a = true ∧ isDescription b = true)) (ds : Drafts) :
    lines.foldlM readTrimmed ds =
      (lines.filter isDescription).foldlM readTrimmed ds >>= (lines.filter isSample).foldlM readTrimmed := by
  induction h generalizing ds with
  | nil => rfl
  | @cons line lines hline _ ih =>
    cases hdescription : isDescription line with
    | true =>
      have hsample := isSample_of_isDescription hdescription
      rw [List.filter_cons_of_pos hdescription, List.filter_cons_of_neg (by simp [hsample]), List.foldlM_cons,
        List.foldlM_cons, bind_assoc]
      exact bind_congr fun es => ih es
    | false =>
      rw [List.filter_cons_of_neg (by simp [hdescription])]
      cases hsample : isSample line with
      | false =>
        rw [List.filter_cons_of_neg (by simp [hsample]), List.foldlM_cons, readTrimmed_of_idle ds hsample hdescription]
        exact ih ds
      | true =>
        have hnone : lines.filter isDescription = [] := by
          refine List.filter_eq_nil_iff.mpr fun b hb hdesc => hline b hb ⟨hsample, hdesc⟩
        rw [List.filter_cons_of_pos hsample, hnone, List.foldlM_cons]
        show readTrimmed ds line >>= _ = readTrimmed ds line >>= _
        refine bind_congr fun es => ?_
        rw [ih es, hnone]
        rfl

theorem readLines_eq_ok_iff_of_describedFirst {cs : List Char} (h : DescribedFirst cs) {es : Drafts} :
    readLines 1 [] (linesOf cs) = .ok es ↔ ∃ H, (descriptionsOf cs).foldlM readTrimmed [] = .ok H ∧
      (∀ line ∈ sampleLinesOf cs, (H.reading? line).isSome = true) ∧
        es = ((sampleLinesOf cs).filterMap H.reading?).foldl Drafts.enter H := by
  have hsamples : ∀ line ∈ sampleLinesOf cs, isSample line = true := fun _ hline => (List.mem_filter.mp hline).2
  rw [readLines_eq_ok_iff, foldlM_readLine, foldlM_readTrimmed_eq h, Outcome.bind_eq_ok_iff]
  exact exists_congr fun H => and_congr_right fun _ => foldlM_readTrimmed_eq_ok_iff rfl hsamples

/-! ## Texts in another order -/

theorem map_reading?_of_reordered {H : Drafts} {lines lines' : List (List Char)}
    (h : List.Forall₂ Reordered lines lines')
    (hlines : ∀ line ∈ lines, (H.reading? line).isSome = true ∧
      ∀ s, SampleLine.read line = .ok s → (s.labels.map Label.name).Nodup) :
    lines.map H.reading? = lines'.map H.reading? := by
  induction h with
  | nil => rfl
  | @cons line line' lines lines' hline _ ih =>
    obtain ⟨⟨hsome, hnames⟩, hlines⟩ := List.forall_mem_cons.mp hlines
    obtain ⟨r, hr⟩ := Option.isSome_iff_exists.mp hsome
    rw [List.map_cons, List.map_cons, ih hlines, hr, Drafts.reading?_of_reordered hline hnames hr]

/-- **The families of a text in another order** differ in their order and in that of their metrics at most. -/
theorem readText_rearranged {cs ds : List Char} (hfirst : DescribedFirst cs) (honce : NamesLabelsOnce cs)
    (h : RearrangedText cs ds) {fs : List Family} (hfs : readText cs = .ok fs) :
    ∃ gs gs', readText ds = .ok gs' ∧ List.Forall₂ Family.Alike fs gs ∧ gs.Perm gs' := by
  obtain ⟨es, hes, rfl⟩ := Outcome.map_eq_ok_iff.mp hfs
  obtain ⟨H, hH, hsome, hes'⟩ := (readLines_eq_ok_iff_of_describedFirst hfirst).mp hes
  obtain ⟨lines, hlines, hreordered⟩ := h.samples
  have hdeclared : declared cs = H := by rw [declared, hH]; rfl
  rw [hdeclared] at hlines
  have hmap : lines.map H.reading? = (sampleLinesOf ds).map H.reading? := by
    refine map_reading?_of_reordered hreordered fun line hline => ?_
    have hmem := hlines.perm.mem_iff.mpr hline
    refine ⟨hsome line hmem, fun s hs => honce s (List.mem_filterMap.mpr ⟨line, hmem, ?_⟩)⟩
    rw [hs]
    rfl
  have hsome' : ∀ line ∈ sampleLinesOf ds, (H.reading? line).isSome = true := by
    intro line hline
    obtain ⟨line', hline', heq⟩ := List.mem_map.mp (hmap ▸ List.mem_map_of_mem hline)
    rw [← heq]
    exact hsome line' (hlines.perm.mem_iff.mpr hline')
  have hreadings : Rearranged Reading.toPlace ((sampleLinesOf cs).filterMap H.reading?)
      ((sampleLinesOf ds).filterMap H.reading?) := by
    have hid : ∀ xs : List (List Char), xs.filterMap H.reading? = (xs.map H.reading?).filterMap id := by
      intro xs
      rw [List.filterMap_map, Function.id_comp]
    rw [hid (sampleLinesOf ds), ← hmap, ← hid]
    exact hlines.filterMap
  have hread : readLines 1 [] (linesOf ds) = .ok (((sampleLinesOf ds).filterMap H.reading?).foldl Drafts.enter H) :=
    (readLines_eq_ok_iff_of_describedFirst h.describedFirst).mpr ⟨H, h.descriptions ▸ hH, hsome', rfl⟩
  have halike := Drafts.foldl_enter H hreadings
  rw [← hes'] at halike
  obtain ⟨gs, hgs, hperm⟩ := halike.families (named_of_readLines hes) (named_of_readLines hread)
    (readLines_keeps kept_sound hes) (readLines_keeps kept_sound hread)
  exact ⟨gs, _, Outcome.map_eq_ok_iff.mpr ⟨_, hread, rfl⟩, hgs, hperm⟩

end MetricGateway.TextFormat
