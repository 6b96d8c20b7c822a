import Mathlib.Data.List.Perm.Basic
import MetricGateway.Proofs.TextFormat.SampleLine

/-!
# Sample lines with their labels in another order

A line is reordered by permuting the texts between the commas of its labels (`Reordered`). A reordered line is read like
the line itself, but for the order of its labels (`Reordered.read`), and every order of the labels that were read from a
line is that of a reordered line (`exists_reordered`).
-/

namespace MetricGateway.TextFormat

/-- The second line is the first one with its labels in another order. -/
inductive Reordered : List Char → List Char → Prop
  | refl (line : List Char) : Reordered line line
  | labels {name gap back : List Char} {texts texts' : List (List Char)} {ls : List Label}
      (hname : name.all isMetricChar = true) (hgap : gap.all isGap = true)
      (htexts : List.Forall₂ (SpellsLabel (String.ofList name)) texts ls) (hperm : texts.Perm texts') :
      Reordered (name ++ (gap ++ '{' :: ([','].intercalate texts ++ back)))
        (name ++ (gap ++ '{' :: ([','].intercalate texts' ++ back)))

theorem ofList_eq_empty_iff {cs : List Char} : String.ofList cs = "" ↔ cs = [] := by
  rw [← String.toList_eq_nil_iff, String.toList_ofList]

/-- Where the parts of a line with labels in braces are read. -/
theorem SampleLine.read_braces {name gap : List Char} (hname : name.all isMetricChar = true)
    (hgap : gap.all isGap = true) {body : List Char} {s : SampleLine} :
    SampleLine.read (name ++ (gap ++ '{' :: body)) = .ok s ↔ name ≠ [] ∧ s.name = String.ofList name ∧
      ∃ r, readLabels s.name body = .ok (s.labels, r) ∧ readNumbers s.name (Text.words r) = .ok s.value := by
  have hbrace : isMetricChar '{' = false := by decide
  obtain ⟨htake, hdrop⟩ := takeWhile_append_gap (fun _ => isMetricChar_of_isGap) hname hgap hbrace body
  have hblock : ∀ metric, readLabelBlock metric (gap ++ '{' :: body) = readLabels metric body := by
    intro metric
    rw [readLabelBlock, skipGap_append hgap, skipGap_cons (by decide)]
    rfl
  simp only [SampleLine.read, htake, hdrop, hblock, ofList_eq_empty_iff]
  by_cases hne : name = []
  · simp [hne]
  · rw [if_neg hne]
    constructor
    · intro h
      split at h
      · cases h
      next labels r hlabels =>
        split at h
        · cases h
        next value hvalue =>
          cases h
          exact ⟨hne, rfl, r, hlabels, hvalue⟩
    · obtain ⟨sname, labels, value⟩ := s
      rintro ⟨-, rfl, r, hlabels, hvalue⟩
      simp only [hlabels, hvalue]

/-- A reordered line says the same, its labels in another order. -/
theorem Reordered.read {line line' : List Char} (h : Reordered line line') {s : SampleLine}
    (hs : SampleLine.read line = .ok s) :
    ∃ ls, s.labels.Perm ls ∧ SampleLine.read line' = .ok { s with labels := ls } := by
  cases h with
  | refl => exact ⟨s.labels, .refl _, hs⟩
  | @labels name gap back texts texts' ls hname hgap htexts hperm =>
    by_cases hnil : texts = []
    · subst hnil
      cases List.nil_perm.mp hperm
      exact ⟨s.labels, .refl _, hs⟩
    · obtain ⟨hne, hsname, r, hlabels, hvalue⟩ := (SampleLine.read_braces hname hgap).mp hs
      rw [← hsname] at htexts
      obtain ⟨more, hmore, hbehind⟩ := (readLabels_intercalate htexts hnil).mp hlabels
      obtain ⟨ls', htexts', hperm'⟩ := List.perm_comp_forall₂ hperm.symm htexts
      have hnil' : texts' ≠ [] := fun h => hnil (List.perm_nil.mp (h ▸ hperm))
      refine ⟨ls' ++ more, ?_, (SampleLine.read_braces hname hgap).mpr ⟨hne, hsname, r, ?_, hvalue⟩⟩
      · rw [hmore]
        exact hperm'.symm.append_right more
      · exact (readLabels_intercalate htexts' hnil').mpr ⟨more, rfl, hbehind⟩

/-! ## Every order -/

section Labels

variable {metric : String}

/-- A label that was read, with the gaps around it, is a text of its own. -/
theorem exists_spellsLabel {cs r : List Char} {l : Label} (h : readLabel metric (skipGap cs) = .ok (l, r)) :
    ∃ t, cs = t ++ skipGap r ∧ SpellsLabel metric t l := by
  obtain ⟨g, hg, hcs⟩ := exists_gap cs
  obtain ⟨g', hg', hr⟩ := exists_gap r
  obtain ⟨q, hq, hread⟩ := exists_prefix_of_readLabel h
  refine ⟨g ++ (q ++ g'), ?_, g', ?_, hg'⟩
  · rw [List.append_assoc, List.append_assoc, ← hr, ← hq, ← hcs]
  · have hread' : readLabel metric (q ++ g') = .ok (l, g') := readLabel_append hread g'
    rw [skipGap_append hg, skipGap_of_readLabel hread', hread']

/-- Labels that were read are texts joined by commas, and what closes the braces. -/
theorem exists_texts_of_readLabels {cs r : List Char} {ls : List Label} (h : readLabels metric cs = .ok (ls, r))
    (hne : ls ≠ []) : ∃ texts back, List.Forall₂ (SpellsLabel metric) texts ls ∧
      cs = [','].intercalate texts ++ back := by
  fun_induction readLabels metric cs generalizing ls r with
  | case1 =>
    cases h
    exact absurd rfl hne
  | case2 | case4 | case6 => cases h
  | case3 cs label r₁ r₂ hcomma labels r₃ hrest _ hlabel ih =>
    cases h
    obtain ⟨t, ht, hspells⟩ := exists_spellsLabel hlabel
    by_cases hnil : labels = []
    · subst hnil
      exact ⟨[t], skipGap r₁, .cons hspells .nil, by rw [List.intercalate_singleton, ht]⟩
    · obtain ⟨texts, back, htexts, hback⟩ := ih hrest hnil
      have htexts' : texts ≠ [] := fun h => hnil (List.forall₂_nil_left_iff.mp (h ▸ htexts))
      refine ⟨t :: texts, back, .cons hspells htexts, ?_⟩
      rw [List.intercalate_cons_of_ne_nil htexts', List.append_assoc, List.append_assoc, ← hback, ht, hcomma]
      rfl
  | case5 cs label r₁ r₂ hbrace _ hlabel =>
    cases h
    obtain ⟨t, ht, hspells⟩ := exists_spellsLabel hlabel
    exact ⟨[t], skipGap r₁, .cons hspells .nil, by rw [List.intercalate_singleton, ht]⟩

end Labels

/-- A line with labels has them in braces behind its name. -/
theorem exists_braces_of_read {line : List Char} {s : SampleLine} (h : SampleLine.read line = .ok s)
    (hne : s.labels ≠ []) : ∃ gap body, s.name.toList.all isMetricChar = true ∧ gap.all isGap = true ∧
      line = s.name.toList ++ (gap ++ '{' :: body) := by
  obtain ⟨-, hname, rest, r, rfl, -, hblock, -⟩ := SampleLine.read_eq_ok_iff.mp h
  obtain ⟨gap, hgap, hrest⟩ := exists_gap rest
  unfold readLabelBlock at hblock
  split at hblock
  next body hbrace =>
    rw [hbrace] at hrest
    exact ⟨gap, body, hname, hgap, by rw [hrest]⟩
  next =>
    simp only [Except.ok.injEq, Prod.mk.injEq] at hblock
    exact absurd hblock.1.symm hne

/-- The labels that were read from a line are written in any other order by a reordered line. -/
theorem exists_reordered {line : List Char} {s : SampleLine} (hs : SampleLine.read line = .ok s) {ls : List Label}
    (hls : s.labels.Perm ls) :
    ∃ line', Reordered line line' ∧ SampleLine.read line' = .ok { s with labels := ls } := by
  by_cases hne : s.labels = []
  · rw [hne] at hls
    cases List.nil_perm.mp hls
    refine ⟨line, .refl line, ?_⟩
    rw [← hne]
    exact hs
  · obtain ⟨gap, body, hname, hgap, rfl⟩ := exists_braces_of_read hs hne
    obtain ⟨hname', -, r, hlabels, hvalue⟩ := (SampleLine.read_braces hname hgap).mp hs
    obtain ⟨texts, back, htexts, rfl⟩ := exists_texts_of_readLabels hlabels hne
    have hnil : texts ≠ [] := fun h => hne (List.forall₂_nil_left_iff.mp (h ▸ htexts))
    obtain ⟨more, hmore, hbehind⟩ := (readLabels_intercalate htexts hnil).mp hlabels
    cases List.append_right_eq_self.mp hmore.symm
    obtain ⟨texts', htexts', hperm⟩ := List.perm_comp_forall₂ hls.symm htexts.flip
    have hnil' : texts' ≠ [] := fun h => hnil (List.nil_perm.mp (h ▸ hperm))
    refine ⟨_, .labels hname hgap (by rwa [String.ofList_toList]) hperm.symm,
      (SampleLine.read_braces hname hgap).mpr ⟨hname', (String.ofList_toList).symm, r, ?_, hvalue⟩⟩
    exact (readLabels_intercalate htexts'.flip hnil').mpr ⟨[], (List.append_nil ls).symm, hbehind⟩

end MetricGateway.TextFormat
