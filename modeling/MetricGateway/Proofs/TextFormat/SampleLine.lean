import Mathlib.Data.List.Forall2
import MetricGateway.Proofs.Binary64.Characters
import MetricGateway.Proofs.Binary64.Literal
import MetricGateway.Proofs.TextFormat.Escape
import MetricGateway.TextFormat.SampleLine
import MetricGateway.TextFormat.Writer

/-!
# Reading back sample lines

A line is read as its name, what stands in braces behind it, and its numbers (`SampleLine.read_eq_ok_iff`). A label is
read in the same way whatever follows it (`readLabel_append`), so texts of labels that are joined by commas are read one
after the other (`readLabels_intercalate`). A sample line that was written is read as its name, its labels in the same
order, and what its number spells (`SampleLine.read_written`), provided that the names are made of the characters of
their class. Label names that were read are of this kind (`spelled_of_read`).
-/

namespace MetricGateway

/-- The name of the label can be read from a sample line. -/
def Label.Spelled (l : Label) : Prop := l.name ≠ "" ∧ l.name.toList.all isLabelChar = true

theorem ne_nil_of_isNameOver {p : Char → Bool} {cs : List Char} (h : isNameOver p cs = true) :
    cs ≠ [] ∧ cs.all p = true := by
  cases cs with
  | nil => cases h
  | cons c r =>
    simp only [isNameOver, Bool.and_eq_true] at h
    exact ⟨by simp, by simp [h.1.1, h.2]⟩

theorem ne_empty_of_isNameOver {p : Char → Bool} {name : String} (h : isNameOver p name.toList = true) :
    name ≠ "" ∧ name.toList.all p = true :=
  ⟨fun hnil => (ne_nil_of_isNameOver h).1 (String.toList_eq_nil_iff.mpr hnil), (ne_nil_of_isNameOver h).2⟩

theorem spelled_of_isLabelName {l : Label} (h : isLabelName l.name = true) : l.Spelled := ne_empty_of_isNameOver h

namespace TextFormat

/-! ## Names and gaps -/

/-- The characters of names are no blanks. -/
theorem isBlank_of_isMetricChar {c : Char} (h : isMetricChar c = true) : Text.isBlank c = false := by
  simp only [isMetricChar, Bool.or_eq_true, beq_iff_eq] at h
  rcases h with (h | rfl) | rfl
  · exact Text.isBlank_of_isAlphanum h
  · decide
  · decide

theorem isMetricChar_of_isLabelChar {c : Char} (h : isLabelChar c = true) : isMetricChar c = true := by
  unfold isLabelChar at h
  rw [isMetricChar, h]
  rfl

theorem isBlank_of_isGap {c : Char} (h : isGap c = true) : Text.isBlank c = true := by
  simp only [isGap, Bool.or_eq_true, beq_iff_eq] at h
  rcases h with rfl | rfl
  · decide
  · decide

theorem isGap_of_isBlank {c : Char} (h : Text.isBlank c = false) : isGap c = false := by
  by_contra hgap
  rw [isBlank_of_isGap (by simpa using hgap)] at h
  cases h

theorem isMetricChar_of_isBlank {c : Char} (h : Text.isBlank c = true) : isMetricChar c = false := by
  by_contra hmetric
  rw [isBlank_of_isMetricChar (by simpa using hmetric)] at h
  cases h

/-- A gap stands between names, so it has none of their characters. -/
theorem isMetricChar_of_isGap {c : Char} (h : isGap c = true) : isMetricChar c = false :=
  isMetricChar_of_isBlank (isBlank_of_isGap h)

theorem isLabelChar_of_isGap {c : Char} (h : isGap c = true) : isLabelChar c = false := by
  have hmetric := isMetricChar_of_isGap h
  cases hc : isLabelChar c with
  | false => rfl
  | true =>
    rw [isMetricChar_of_isLabelChar hc] at hmetric
    cases hmetric

theorem skipGap_cons {c : Char} (h : isGap c = false) (cs : List Char) : skipGap (c :: cs) = c :: cs :=
  List.dropWhile_cons_of_neg (by simp [h])

theorem skipGap_append {g : List Char} (h : g.all isGap = true) (r : List Char) : skipGap (g ++ r) = skipGap r :=
  List.dropWhile_append_of_pos (List.all_eq_true.mp h)

/-- A text is a gap and what is left without it. -/
theorem exists_gap (cs : List Char) : ∃ g, g.all isGap = true ∧ cs = g ++ skipGap cs :=
  ⟨cs.takeWhile isGap, List.all_takeWhile, List.takeWhile_append_dropWhile.symm⟩

theorem words_skipGap (cs : List Char) : Text.words (skipGap cs) = Text.words cs := by
  obtain ⟨g, hg, hcs⟩ := exists_gap cs
  have hblanks : Text.Blanks g := fun c hc => isBlank_of_isGap (List.all_eq_true.mp hg c hc)
  rw [← Text.words_append_of_blanks hblanks (skipGap cs), ← hcs]

/-- A name ends in front of a gap and a character that is not of its class. -/
theorem takeWhile_append_gap {p : Char → Bool} (hp : ∀ c, isGap c = true → p c = false) {name gap : List Char}
    (hname : name.all p = true) (hgap : gap.all isGap = true) {d : Char} (hd : p d = false) (r : List Char) :
    (name ++ (gap ++ d :: r)).takeWhile p = name ∧ (name ++ (gap ++ d :: r)).dropWhile p = gap ++ d :: r := by
  cases gap with
  | nil => exact Text.takeWhile_append_cons hname hd r
  | cons c gap =>
    rw [List.all_cons, Bool.and_eq_true] at hgap
    exact Text.takeWhile_append_cons hname (hp c hgap.1) (gap ++ d :: r)

/-! ## The parts of a line -/

/-- The parts of a line that is read. -/
theorem SampleLine.read_eq_ok_iff {line : List Char} {s : SampleLine} :
    SampleLine.read line = .ok s ↔ s.name ≠ "" ∧ s.name.toList.all isMetricChar = true ∧
      ∃ rest r, line = s.name.toList ++ rest ∧ (∀ c ∈ rest.head?, isMetricChar c = false) ∧
        readLabelBlock s.name rest = .ok (s.labels, r) ∧ readNumbers s.name (Text.words r) = .ok s.value := by
  constructor
  · intro h
    simp only [SampleLine.read] at h
    split at h
    · cases h
    next hne =>
      split at h
      · cases h
      next labels r hblock =>
        split at h
        · cases h
        next value hvalue =>
          cases h
          refine ⟨hne, ?_, line.dropWhile isMetricChar, r, ?_, ?_, hblock, hvalue⟩
          · rw [String.toList_ofList]
            exact List.all_takeWhile
          · rw [String.toList_ofList, List.takeWhile_append_dropWhile]
          · intro c hc
            have hnot := List.head?_dropWhile_not isMetricChar line
            rw [hc] at hnot
            simpa using hnot
  · obtain ⟨name, labels, value⟩ := s
    rintro ⟨hne, hname, rest, r, rfl, hrest, hblock, hvalue⟩
    obtain ⟨htake, hdrop⟩ : (name.toList ++ rest).takeWhile isMetricChar = name.toList ∧
        (name.toList ++ rest).dropWhile isMetricChar = rest := by
      cases rest with
      | nil =>
        have hall : ∀ c ∈ name.toList, isMetricChar c = true := List.all_eq_true.mp hname
        rw [List.append_nil, List.takeWhile_eq_self_iff, List.dropWhile_eq_nil_iff]
        exact ⟨hall, hall⟩
      | cons c rest => exact Text.takeWhile_append_cons hname (hrest c rfl) rest
    simp only [SampleLine.read, htake, hdrop, String.ofList_toList, if_neg hne, hblock, hvalue]

/-- Behind the labels stand a number and at most one timestamp. -/
theorem readNumbers_eq_ok_iff {metric : String} {words : List (List Char)} {v : Binary64} :
    readNumbers metric words = .ok v ↔ ∃ number stamps, words = number :: stamps ∧ Binary64.read? number = some v ∧
      (stamps = [] ∨ ∃ t, stamps = [t] ∧ readTimestamp? t ≠ none) := by
  match words with
  | [] => simp [readNumbers]
  | [number] =>
    cases hread : Binary64.read? number <;> simp [readNumbers, hread]
  | [number, t] =>
    cases hread : Binary64.read? number <;> cases hstamp : readTimestamp? t <;> simp [readNumbers, hread, hstamp]
  | number :: t :: text :: more =>
    cases hread : Binary64.read? number <;> cases hstamp : readTimestamp? t <;> simp [readNumbers, hread, hstamp]

/-- A number does not start like a list of labels, so nothing but a gap is dropped in front of it. -/
theorem readLabelBlock_of_words {metric : String} {cs number : List Char} {ws : List (List Char)} {v : Binary64}
    (hwords : Text.words cs = number :: ws) (hnumber : Binary64.read? number = some v) :
    ∃ r, readLabelBlock metric cs = .ok ([], r) ∧ Text.words r = Text.words cs := by
  refine ⟨skipGap cs, ?_, words_skipGap cs⟩
  unfold readLabelBlock
  split
  next r hbrace =>
    rw [← words_skipGap cs, hbrace] at hwords
    obtain ⟨t, back, rfl, -⟩ := Text.head_words (by decide) hwords
    exact absurd (Binary64.isNumberChar_of_read? hnumber '{' List.mem_cons_self) (by decide)
  next => rfl

/-! ## Names that were read -/

theorem spelled_of_readLabel {metric : String} {cs r : List Char} {l : Label} (h : readLabel metric cs = .ok (l, r)) :
    l.Spelled := by
  simp only [readLabel] at h
  split at h
  · cases h
  next hne =>
    split at h
    · split at h
      · cases h
        refine ⟨hne, ?_⟩
        rw [String.toList_ofList]
        exact List.all_takeWhile
      · cases h
    · cases h

theorem spelled_of_readLabels {metric : String} {cs r : List Char} {ls : List Label}
    (h : readLabels metric cs = .ok (ls, r)) : ∀ l ∈ ls, l.Spelled := by
  fun_induction readLabels metric cs generalizing ls r with
  | case1 => cases h; simp
  | case2 => cases h
  | case3 cs label r₁ r₂ hr labels r₃ hrec _ hl ih =>
    cases h
    exact List.forall_mem_cons.mpr ⟨spelled_of_readLabel hl, ih hrec⟩
  | case4 => cases h
  | case5 cs label r₁ r₂ hr _ hl =>
    cases h
    simpa using spelled_of_readLabel hl
  | case6 => cases h

theorem spelled_of_read {line : List Char} {s : SampleLine} (h : SampleLine.read line = .ok s) :
    s.name ≠ "" ∧ ∀ l ∈ s.labels, l.Spelled := by
  obtain ⟨hne, -, rest, r, -, -, hblock, -⟩ := SampleLine.read_eq_ok_iff.mp h
  refine ⟨hne, ?_⟩
  unfold readLabelBlock at hblock
  split at hblock
  · exact spelled_of_readLabels hblock
  · simp only [Except.ok.injEq, Prod.mk.injEq] at hblock
    rw [← hblock.1]
    simp

section Labels

variable {metric : String}

/-- A label is a name, an equals sign and a quoted value, with gaps between them. -/
theorem readLabel_eq_ok_iff {cs r : List Char} {l : Label} :
    readLabel metric cs = .ok (l, r) ↔ ∃ g g' value, g.all isGap = true ∧ g'.all isGap = true ∧ l.Spelled ∧
      cs = l.name.toList ++ (g ++ '=' :: (g' ++ '"' :: value)) ∧ readValue value = .ok (l.value.toList, r) := by
  constructor
  · intro h
    have hspelled := spelled_of_readLabel h
    simp only [readLabel] at h
    split at h
    · cases h
    split at h
    next r₁ hequals =>
      split at h
      next v r₂ hquoted =>
        cases h
        obtain ⟨g, hg, hcs⟩ := exists_gap (cs.dropWhile isLabelChar)
        obtain ⟨g', hg', hcs'⟩ := exists_gap r₁
        obtain ⟨value, hstart, hvalue⟩ := readQuoted_eq_ok_iff.mp hquoted
        refine ⟨g, g', value, hg, hg', hspelled, ?_, by rwa [String.toList_ofList]⟩
        rw [String.toList_ofList, ← hstart, ← hcs', ← hequals, ← hcs, List.takeWhile_append_dropWhile]
      next => cases h
    next => cases h
  · rintro ⟨g, g', value, hg, hg', hl, rfl, hvalue⟩
    have hequal : isLabelChar '=' = false := by decide
    obtain ⟨htake, hdrop⟩ := takeWhile_append_gap (fun _ => isLabelChar_of_isGap) hl.2 hg hequal (g' ++ '"' :: value)
    have hequals : skipGap (g ++ '=' :: (g' ++ '"' :: value)) = '=' :: (g' ++ '"' :: value) := by
      rw [skipGap_append hg, skipGap_cons (by decide)]
    have hquoted : readQuoted (skipGap (g' ++ '"' :: value)) = .ok (l.value.toList, r) := by
      rw [skipGap_append hg', skipGap_cons (by decide)]
      exact hvalue
    simp only [readLabel, htake, hdrop, String.ofList_toList, if_neg hl.1, hequals, hquoted]

/-- What follows a label does not change how it is read. -/
theorem readLabel_append {cs r : List Char} {l : Label} (h : readLabel metric cs = .ok (l, r)) (t : List Char) :
    readLabel metric (cs ++ t) = .ok (l, r ++ t) := by
  obtain ⟨g, g', value, hg, hg', hl, rfl, hvalue⟩ := readLabel_eq_ok_iff.mp h
  exact readLabel_eq_ok_iff.mpr ⟨g, g', value ++ t, hg, hg', hl, by simp, readValue_append hvalue t⟩

/-- A label that was read ends where the rest starts. -/
theorem exists_prefix_of_readLabel {cs r : List Char} {l : Label} (h : readLabel metric cs = .ok (l, r)) :
    ∃ q, cs = q ++ r ∧ readLabel metric q = .ok (l, []) := by
  obtain ⟨g, g', value, hg, hg', hl, rfl, hvalue⟩ := readLabel_eq_ok_iff.mp h
  obtain ⟨q, rfl, hq⟩ := exists_prefix_of_readValue hvalue
  exact ⟨_, by simp, readLabel_eq_ok_iff.mpr ⟨g, g', q, hg, hg', hl, rfl, hq⟩⟩

/-- A label starts with a character of its name. -/
theorem skipGap_of_readLabel {cs r : List Char} {l : Label} (h : readLabel metric cs = .ok (l, r)) :
    skipGap cs = cs := by
  obtain ⟨g, g', value, -, -, hl, rfl, -⟩ := readLabel_eq_ok_iff.mp h
  obtain ⟨c, t, hname⟩ := List.exists_cons_of_ne_nil (fun h => hl.1 (String.toList_eq_nil_iff.mp h))
  have hall := hl.2
  rw [hname, List.all_cons, Bool.and_eq_true] at hall
  rw [hname, List.cons_append]
  exact skipGap_cons (isGap_of_isBlank (isBlank_of_isMetricChar (isMetricChar_of_isLabelChar hall.1))) _

theorem readLabel_labelText {l : Label} (hl : l.Spelled) : readLabel metric (labelText l) = .ok (l, []) :=
  readLabel_eq_ok_iff.mpr
    ⟨[], [], escapeValue l.value.toList ++ ['"'], rfl, rfl, hl, rfl, readValue_escapeValue l.value.toList []⟩

/-! ## Labels -/

/-- The text of a label, with gaps around it. -/
def SpellsLabel (metric : String) (t : List Char) (l : Label) : Prop :=
  ∃ g, readLabel metric (skipGap t) = .ok (l, g) ∧ g.all isGap = true

theorem spellsLabel_labelText {l : Label} (hl : l.Spelled) : SpellsLabel metric (labelText l) l := by
  have hread : readLabel metric (labelText l) = .ok (l, []) := readLabel_labelText hl
  exact ⟨[], by rw [skipGap_of_readLabel hread, hread], rfl⟩

theorem SpellsLabel.append {t : List Char} {l : Label} (h : SpellsLabel metric t l) (u : List Char) :
    ∃ r, readLabel metric (skipGap (t ++ u)) = .ok (l, r) ∧ skipGap r = skipGap u := by
  obtain ⟨g, hread, hg⟩ := h
  have hskip : skipGap (t ++ u) = skipGap t ++ u := by
    unfold skipGap at hread ⊢
    rw [List.dropWhile_append, if_neg]
    intro hnil
    rw [List.isEmpty_iff.mp hnil] at hread
    cases hread
  refine ⟨g ++ u, ?_, skipGap_append hg u⟩
  rw [hskip]
  exact readLabel_append hread u

/-- What stands behind a label: a comma and more labels, or the closing brace. -/
inductive LabelsBehind (metric : String) (cs : List Char) : List Label → List Char → Prop
  | comma {r r' : List Char} {ls : List Label} (hcs : skipGap cs = ',' :: r)
      (hr : readLabels metric r = .ok (ls, r')) : LabelsBehind metric cs ls r'
  | brace {r : List Char} (hcs : skipGap cs = '}' :: r) : LabelsBehind metric cs [] r

theorem labelsBehind_congr {cs cs' r : List Char} {ls : List Label} (h : skipGap cs = skipGap cs') :
    LabelsBehind metric cs ls r ↔ LabelsBehind metric cs' ls r := by
  constructor
  · rintro (⟨hcs, hr⟩ | hcs)
    · exact .comma (h ▸ hcs) hr
    · exact .brace (h ▸ hcs)
  · rintro (⟨hcs, hr⟩ | hcs)
    · exact .comma (h ▸ hcs) hr
    · exact .brace (h ▸ hcs)

theorem labelsBehind_iff_of_comma {cs r r' : List Char} (h : skipGap cs = ',' :: r) {ls : List Label} :
    LabelsBehind metric cs ls r' ↔ readLabels metric r = .ok (ls, r') := by
  constructor
  · rintro (⟨hcs, hr⟩ | hcs)
    · cases h.symm.trans hcs
      exact hr
    · cases h.symm.trans hcs
  · exact .comma h

theorem labelsBehind_iff_of_brace {cs r r' : List Char} (h : skipGap cs = '}' :: r) {ls : List Label} :
    LabelsBehind metric cs ls r' ↔ ls = [] ∧ r' = r := by
  constructor
  · rintro (⟨hcs, -⟩ | hcs)
    · cases h.symm.trans hcs
    · cases h.symm.trans hcs
      exact ⟨rfl, rfl⟩
  · rintro ⟨rfl, rfl⟩
    exact .brace h

/-- Labels are a label and what stands behind it. -/
theorem readLabels_eq_ok_iff {cs r r' : List Char} {l : Label} (h : readLabel metric (skipGap cs) = .ok (l, r))
    {ls : List Label} :
    readLabels metric cs = .ok (ls, r') ↔ ∃ more, ls = l :: more ∧ LabelsBehind metric r more r' := by
  have hbrace : ∀ t, skipGap cs ≠ '}' :: t := by
    intro t ht
    rw [ht] at h
    cases h
  rw [readLabels]
  split
  next t ht => exact absurd ht (hbrace t)
  next =>
    split
    next e he =>
      rw [h] at he
      cases he
    next l' r₁ hl =>
      rw [h] at hl
      cases hl
      split
      next t ht =>
        simp only [labelsBehind_iff_of_comma ht]
        cases readLabels metric t with
        | error e => simp
        | ok x =>
          obtain ⟨more, r₂⟩ := x
          simp [eq_comm]
      next t ht => simp [labelsBehind_iff_of_brace ht, eq_comm]
      next hcomma hend =>
        have hnone : ∀ more, ¬ LabelsBehind metric r more r' := by
          rintro more (⟨hcs, -⟩ | hcs)
          · exact hcomma _ hcs
          · exact hend _ hcs
        simp [hnone]

/-- Labels that are joined by commas are read one after the other, and then what stands behind the last one. -/
theorem readLabels_intercalate {texts : List (List Char)} {ls ls' : List Label} {back r : List Char}
    (h : List.Forall₂ (SpellsLabel metric) texts ls) (hne : texts ≠ []) :
    readLabels metric ([','].intercalate texts ++ back) = .ok (ls', r) ↔
      ∃ more, ls' = ls ++ more ∧ LabelsBehind metric back more r := by
  induction h generalizing ls' with
  | nil => exact absurd rfl hne
  | @cons t l texts ls ht htexts ih =>
    by_cases hnil : texts = []
    · subst hnil
      cases htexts
      obtain ⟨u, hread, hu⟩ := ht.append back
      simp only [List.intercalate_singleton, readLabels_eq_ok_iff hread, labelsBehind_congr hu, List.singleton_append]
    · obtain ⟨u, hread, hu⟩ := ht.append (',' :: ([','].intercalate texts ++ back))
      have htext : [','].intercalate (t :: texts) ++ back = t ++ ',' :: ([','].intercalate texts ++ back) := by
        rw [List.intercalate_cons_of_ne_nil hnil]
        simp
      have hcomma : skipGap (',' :: ([','].intercalate texts ++ back)) = ',' :: ([','].intercalate texts ++ back) :=
        skipGap_cons (by decide) _
      rw [htext, readLabels_eq_ok_iff hread]
      simp only [labelsBehind_congr hu, labelsBehind_iff_of_comma hcomma, ih hnil]
      constructor
      · rintro ⟨_, rfl, more, rfl, hmore⟩
        exact ⟨more, rfl, hmore⟩
      · rintro ⟨more, rfl, hmore⟩
        exact ⟨_, rfl, more, rfl, hmore⟩

end Labels

/-! ## Numbers -/

/-- A text that is read as the given number, whatever blanks stand around it. -/
structure Spells (number : List Char) (v : Binary64) : Prop where
  ne_nil : number ≠ []
  noBlank : ∀ c ∈ number, Text.isBlank c = false
  read : Binary64.read? number = some v

theorem spells_of_read? {number : List Char} {v : Binary64} (h : Binary64.read? number = some v) : Spells number v :=
  ⟨(Binary64.isWord_of_read? h).ne_nil, (Binary64.isWord_of_read? h).noBlank, h⟩

theorem spells_text (x : Binary64) : Spells x.text x.plain := spells_of_read? x.read?_text

theorem spells_countText (c : Count) : Spells (countText c) (c.toNat : Nat) :=
  spells_of_read? (Binary64.read?_digitsOf _)

/-! ## Lines -/

/-- A sample line without its end. -/
def sampleText (name : String) (ls : List Label) (number : List Char) : List Char :=
  name.toList ++ labelBlock ls ++ ' ' :: number

theorem sampleLine_eq (name : String) (ls : List Label) (number : List Char) :
    sampleLine name ls number = sampleText name ls number ++ ['\n'] := by
  simp [sampleLine, sampleText]

theorem readLabelBlock_written (metric : String) {ls : List Label} (hls : ∀ l ∈ ls, l.Spelled) {number : List Char}
    {v : Binary64} (hnumber : Spells number v) :
    ∃ r, readLabelBlock metric (labelBlock ls ++ ' ' :: number) = .ok (ls, r) ∧ Text.words r = [number] := by
  have hwords : Text.words (' ' :: number) = [number] :=
    (Text.words_cons (by decide) number).trans (Text.words_eq_singleton hnumber.ne_nil hnumber.noBlank)
  by_cases hnil : ls = []
  · subst hnil
    obtain ⟨r, hread, hr⟩ := @readLabelBlock_of_words metric _ _ _ _ hwords hnumber.read
    exact ⟨r, hread, hr.trans hwords⟩
  · have hblock : labelBlock ls ++ ' ' :: number =
        '{' :: ([','].intercalate (ls.map labelText) ++ '}' :: ' ' :: number) := by
      simp [labelBlock, hnil]
    refine ⟨' ' :: number, ?_, hwords⟩
    unfold readLabelBlock
    rw [hblock, skipGap_cons (by decide)]
    have htexts : List.Forall₂ (SpellsLabel metric) (ls.map labelText) ls :=
      List.forall₂_map_left_iff.mpr (List.forall₂_same.mpr fun l hl => spellsLabel_labelText (hls l hl))
    exact (readLabels_intercalate htexts (by simpa using hnil)).mpr ⟨[], (List.append_nil ls).symm, .brace rfl⟩

/-- **A sample line that was written is read as what was written.** -/
theorem SampleLine.read_written {name : String} (hne : name ≠ "") (hname : name.toList.all isMetricChar = true)
    {ls : List Label} (hls : ∀ l ∈ ls, l.Spelled) {number : List Char} {v : Binary64} (hnumber : Spells number v) :
    SampleLine.read (sampleText name ls number) = .ok ⟨name, ls, v⟩ := by
  obtain ⟨r, hread, hwords⟩ := readLabelBlock_written name hls hnumber
  refine SampleLine.read_eq_ok_iff.mpr ⟨hne, hname, labelBlock ls ++ ' ' :: number, r, ?_, ?_, hread, ?_⟩
  · rw [sampleText, List.append_assoc]
  · have hhead : (labelBlock ls ++ ' ' :: number).head? = some ' ' ∨
        (labelBlock ls ++ ' ' :: number).head? = some '{' := by
      by_cases hnil : ls = [] <;> simp [labelBlock, hnil]
    intro c hc
    rcases hhead with hspace | hbrace
    · cases hspace.symm.trans hc
      decide
    · cases hbrace.symm.trans hc
      decide
  · rw [hwords]
    exact readNumbers_eq_ok_iff.mpr ⟨number, [], rfl, hnumber.read, .inl rfl⟩

end TextFormat
end MetricGateway
