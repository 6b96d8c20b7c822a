import MetricGateway.Proofs.TextFormat.LabelOrder
import MetricGateway.Proofs.TextFormat.NameEnd

/-!
# The spellings of a sample

A sample is spelled in many ways: with gaps around the tokens of its labels, with one more comma behind the last label,
with blanks around its number, and with a timestamp. The grammar of these lines is given by `Spelling`, and each of
them is read back as the sample (`read_of_spelling`). Conversely a line that is read is a spelling of what was read,
except that the number may stand right behind the name (`spelling_or_attached_of_read`).
-/

namespace MetricGateway.TextFormat

/-! ## The grammar -/

/-- A label with gaps around its tokens: a name, an equals sign, and the value in quotes and escaped. -/
inductive SpelledLabel : List Char → Label → Prop
  | spelled {before behindName beforeValue behind : List Char} {l : Label} (hbefore : before.all isGap = true)
      (hbehindName : behindName.all isGap = true) (hbeforeValue : beforeValue.all isGap = true)
      (hbehind : behind.all isGap = true) (hl : l.Spelled) :
      SpelledLabel (before ++ (l.name.toList ++ (behindName ++ '=' :: (beforeValue ++
        '"' :: (escapeValue l.value.toList ++ '"' :: behind))))) l

/-- What stands behind an opening brace: labels with commas between them, and the closing brace. A comma may stand
behind the last label. -/
inductive SpelledLabels : List Char → List Label → Prop
  | none {gap : List Char} (hgap : gap.all isGap = true) : SpelledLabels (gap ++ ['}']) []
  | last {t : List Char} {l : Label} (ht : SpelledLabel t l) : SpelledLabels (t ++ ['}']) [l]
  | comma {t cs : List Char} {l : Label} {ls : List Label} (ht : SpelledLabel t l) (hcs : SpelledLabels cs ls) :
      SpelledLabels (t ++ ',' :: cs) (l :: ls)

/-- What stands between the name and the number: labels in braces, or a blank. -/
inductive SpelledBlock : List Char → List Label → Prop
  | blank {c : Char} (hc : Text.isBlank c = true) : SpelledBlock [c] []
  | braces {gap body : List Char} {ls : List Label} (hgap : gap.all isGap = true) (hbody : SpelledLabels body ls) :
      SpelledBlock (gap ++ '{' :: body) ls

/-- A number of 64 bits with an optional sign. -/
inductive IsTimestamp : List Char → Prop
  | plain {ds : List Char} (hne : ds ≠ []) (hds : Text.Digits ds) (h : Text.digitsValue ds < 0x8000000000000000) :
      IsTimestamp ds
  | plus {ds : List Char} (hne : ds ≠ []) (hds : Text.Digits ds) (h : Text.digitsValue ds < 0x8000000000000000) :
      IsTimestamp ('+' :: ds)
  | minus {ds : List Char} (hne : ds ≠ []) (hds : Text.Digits ds) (h : Text.digitsValue ds ≤ 0x8000000000000000) :
      IsTimestamp ('-' :: ds)

/-- A number and perhaps a timestamp, with blanks between and around them. -/
inductive SpelledNumbers : List Char → Binary64 → Prop
  | number {before number behind : List Char} {v : Binary64} (hbefore : Text.Blanks before)
      (hnumber : Binary64.read? number = some v) (hbehind : Text.Blanks behind) :
      SpelledNumbers (before ++ (number ++ behind)) v
  | stamped {before number between stamp behind : List Char} {v : Binary64} (hbefore : Text.Blanks before)
      (hnumber : Binary64.read? number = some v) (hne : between ≠ []) (hbetween : Text.Blanks between)
      (hstamp : IsTimestamp stamp) (hbehind : Text.Blanks behind) :
      SpelledNumbers (before ++ (number ++ (between ++ (stamp ++ behind)))) v

/-- The line is a spelling of the sample. -/
inductive Spelling : List Char → SampleLine → Prop
  | spelled {s : SampleLine} {block numbers : List Char} (hne : s.name ≠ "")
      (hname : s.name.toList.all isMetricChar = true) (hblock : SpelledBlock block s.labels)
      (hnumbers : SpelledNumbers numbers s.value) : Spelling (s.name.toList ++ (block ++ numbers)) s

/-! ## Labels -/

section Labels

variable {metric : String}

theorem SpelledLabel.spellsLabel {t : List Char} {l : Label} (h : SpelledLabel t l) : SpellsLabel metric t l := by
  cases h with
  | @spelled before behindName beforeValue behind l hbefore hbehindName hbeforeValue hbehind hl =>
    have hread : readLabel metric (l.name.toList ++ (behindName ++ '=' :: (beforeValue ++
        '"' :: (escapeValue l.value.toList ++ '"' :: behind)))) = .ok (l, behind) :=
      readLabel_eq_ok_iff.mpr ⟨_, _, _, hbehindName, hbeforeValue, hl, rfl, readValue_escapeValue l.value.toList behind⟩
    refine ⟨behind, ?_, hbehind⟩
    rw [skipGap_append hbefore, skipGap_of_readLabel hread, hread]

/-- Labels that are spelled are read, whatever follows them. -/
theorem readLabels_of_spelled {cs : List Char} {ls : List Label} (h : SpelledLabels cs ls) (r : List Char) :
    readLabels metric (cs ++ r) = .ok (ls, r) := by
  induction h with
  | @none gap hgap =>
    have hskip : skipGap (gap ++ ['}'] ++ r) = '}' :: r := by
      rw [List.append_assoc, skipGap_append hgap]
      exact skipGap_cons (by decide) r
    rw [readLabels]
    split
    next r' hr =>
      cases hskip.symm.trans hr
      rfl
    next hne => exact absurd hskip (hne r)
  | @last t l ht =>
    have hspells : SpellsLabel metric t l := ht.spellsLabel
    obtain ⟨u, hread, hu⟩ := hspells.append ('}' :: r)
    rw [List.append_assoc]
    refine (readLabels_eq_ok_iff hread).mpr ⟨[], rfl, (labelsBehind_congr hu).mpr (.brace ?_)⟩
    exact skipGap_cons (by decide) r
  | @comma t cs l ls ht hcs ih =>
    have hspells : SpellsLabel metric t l := ht.spellsLabel
    obtain ⟨u, hread, hu⟩ := hspells.append (',' :: (cs ++ r))
    rw [List.append_assoc]
    refine (readLabels_eq_ok_iff hread).mpr ⟨ls, rfl, (labelsBehind_congr hu).mpr (.comma ?_ ih)⟩
    exact skipGap_cons (by decide) (cs ++ r)

theorem exists_spelledLabel {cs r : List Char} {l : Label} (h : readLabel metric (skipGap cs) = .ok (l, r))
    (hfeed : '\n' ∉ cs) : ∃ t, cs = t ++ skipGap r ∧ SpelledLabel t l := by
  obtain ⟨before, hbefore, hcs⟩ := exists_gap cs
  obtain ⟨behind, hbehind, hr⟩ := exists_gap r
  obtain ⟨g, g', value, hg, hg', hl, htext, hvalue⟩ := readLabel_eq_ok_iff.mp h
  have hvaluefeed : '\n' ∉ value := by
    intro hmem
    rw [hcs, htext] at hfeed
    simp [hmem] at hfeed
  refine ⟨_, ?_, .spelled hbefore hg hg' hbehind hl⟩
  rw [hcs, htext, eq_escapeValue_of_readValue hvalue hvaluefeed]
  nth_rewrite 1 [hr]
  simp

/-- Labels that were read from a line are spelled there. -/
theorem exists_spelledLabels {cs r : List Char} {ls : List Label} (h : readLabels metric cs = .ok (ls, r))
    (hfeed : '\n' ∉ cs) : ∃ body, cs = body ++ r ∧ SpelledLabels body ls := by
  fun_induction readLabels metric cs generalizing ls r with
  | case1 cs r' hbrace =>
    cases h
    obtain ⟨gap, hgap, hcs⟩ := exists_gap cs
    refine ⟨gap ++ ['}'], ?_, .none hgap⟩
    rw [hcs, hbrace, List.append_assoc]
    rfl
  | case2 | case4 | case6 => cases h
  | case3 cs label r₁ r₂ hcomma labels r₃ hrest _ hlabel ih =>
    cases h
    obtain ⟨t, ht, hspelled⟩ := exists_spelledLabel hlabel hfeed
    rw [hcomma] at ht
    obtain ⟨body, rfl, hbody⟩ := ih hrest fun hmem => hfeed (by rw [ht]; simp [hmem])
    exact ⟨t ++ ',' :: body, by rw [ht]; simp, .comma hspelled hbody⟩
  | case5 cs label r₁ r₂ hbrace _ hlabel =>
    cases h
    obtain ⟨t, ht, hspelled⟩ := exists_spelledLabel hlabel hfeed
    rw [hbrace] at ht
    exact ⟨t ++ ['}'], by rw [ht]; simp, .last hspelled⟩

end Labels

/-! ## Numbers -/

theorem readTimestamp?_ne_none_iff {t ds : List Char} {negative : Bool} (h : Text.readSign t = (negative, ds)) :
    readTimestamp? t ≠ none ↔ ds ≠ [] ∧ Text.Digits ds ∧
      (Text.digitsValue ds < 0x8000000000000000 ∨ negative = true ∧ Text.digitsValue ds = 0x8000000000000000) := by
  have hnumber : readTimestamp? t ≠ none ↔
      ∃ n, Text.natural? ds = some n ∧ (n < 0x8000000000000000 ∨ negative = true ∧ n = 0x8000000000000000) := by
    unfold readTimestamp?
    rw [h]
    cases hn : Text.natural? ds with
    | none => simp [hn]
    | some n =>
      cases negative with
      | true =>
        simp [hn]
        omega
      | false => simp [hn]
  rw [hnumber]
  simp only [Text.natural?_eq_some_iff]
  constructor
  · rintro ⟨n, ⟨hne, hds, rfl⟩, hn⟩
    exact ⟨hne, hds, hn⟩
  · rintro ⟨hne, hds, hn⟩
    exact ⟨_, ⟨hne, hds, rfl⟩, hn⟩

theorem isTimestamp_iff {t : List Char} : IsTimestamp t ↔ readTimestamp? t ≠ none := by
  constructor
  · intro h
    cases h with
    | plain hne hds h => exact (readTimestamp?_ne_none_iff (Text.readSign_of_digits hds)).mpr ⟨hne, hds, .inl h⟩
    | plus hne hds h => exact (readTimestamp?_ne_none_iff rfl).mpr ⟨hne, hds, .inl h⟩
    | minus hne hds h =>
      refine (readTimestamp?_ne_none_iff rfl).mpr ⟨hne, hds, ?_⟩
      rcases Nat.lt_or_eq_of_le h with h | h
      · exact .inl h
      · exact .inr ⟨rfl, h⟩
  · intro h
    rcases Text.readSign_cases t with ⟨ds, rfl, hsign⟩ | ⟨ds, rfl, hsign⟩ | hsign
    · obtain ⟨hne, hds, h⟩ := (readTimestamp?_ne_none_iff hsign).mp h
      refine .minus hne hds ?_
      rcases h with h | ⟨-, h⟩
      · exact Nat.le_of_lt h
      · exact Nat.le_of_eq h
    · obtain ⟨hne, hds, h | ⟨h, -⟩⟩ := (readTimestamp?_ne_none_iff hsign).mp h
      · exact .plus hne hds h
      · cases h
    · obtain ⟨hne, hds, h | ⟨h, -⟩⟩ := (readTimestamp?_ne_none_iff hsign).mp h
      · exact .plain hne hds h
      · cases h

theorem isWord_of_isTimestamp {t : List Char} (h : IsTimestamp t) : Text.IsWord t := by
  have hdigits : ∀ {ds : List Char}, Text.Digits ds → ∀ c ∈ ds, Text.isBlank c = false :=
    fun hds c hc => Text.isBlank_of_isDigit (hds c hc)
  cases h with
  | plain hne hds => exact ⟨hne, hdigits hds⟩
  | plus hne hds => exact ⟨List.cons_ne_nil _ _, List.forall_mem_cons.mpr ⟨by decide, hdigits hds⟩⟩
  | minus hne hds => exact ⟨List.cons_ne_nil _ _, List.forall_mem_cons.mpr ⟨by decide, hdigits hds⟩⟩

theorem SpelledNumbers.exists_spaced {cs : List Char} {v : Binary64} (h : SpelledNumbers cs v) :
    ∃ number stamps, Text.Spaced cs (number :: stamps) ∧ Binary64.read? number = some v ∧
      (stamps = [] ∨ ∃ t, stamps = [t] ∧ IsTimestamp t) := by
  cases h with
  | number hbefore hnumber hbehind =>
    refine ⟨_, [], .word hbefore (Binary64.isWord_of_read? hnumber) hbehind.startsBlank (.blanks hbehind), hnumber, ?_⟩
    exact .inl rfl
  | @stamped before number between stamp behind _ hbefore hnumber hne hbetween hstamp hbehind =>
    have hstart : Text.StartsBlank (between ++ (stamp ++ behind)) := by
      obtain ⟨c, t, rfl⟩ := List.exists_cons_of_ne_nil hne
      exact Text.startsBlank_cons.mpr (Text.blanks_cons.mp hbetween).1
    have hrest : Text.Spaced (between ++ (stamp ++ behind)) [stamp] :=
      .word hbetween (isWord_of_isTimestamp hstamp) hbehind.startsBlank (.blanks hbehind)
    refine ⟨number, [stamp], .word hbefore (Binary64.isWord_of_read? hnumber) hstart hrest, hnumber, ?_⟩
    exact .inr ⟨stamp, rfl, hstamp⟩

theorem SpelledNumbers.of_spaced {cs number : List Char} {stamps : List (List Char)} {v : Binary64}
    (hnumber : Binary64.read? number = some v) (hstamps : stamps = [] ∨ ∃ t, stamps = [t] ∧ IsTimestamp t)
    (h : Text.Spaced cs (number :: stamps)) : SpelledNumbers cs v := by
  obtain _ | ⟨hbefore, -, hstart, hrest⟩ := h
  rcases hstamps with rfl | ⟨t, rfl, ht⟩
  · obtain hbehind | _ := hrest
    exact .number hbefore hnumber hbehind
  · obtain _ | ⟨hbetween, hword, -, hrest⟩ := hrest
    obtain hbehind | _ := hrest
    refine .stamped hbefore hnumber ?_ hbetween ht hbehind
    rintro rfl
    obtain ⟨c, r, rfl⟩ := List.exists_cons_of_ne_nil hword.ne_nil
    have hblank : Text.isBlank c = true := Text.startsBlank_cons.mp hstart
    rw [hword.noBlank c List.mem_cons_self] at hblank
    cases hblank

/-- The numbers of a line are read exactly if they are spelled. -/
theorem spelledNumbers_iff {metric : String} {cs : List Char} {v : Binary64} :
    SpelledNumbers cs v ↔ readNumbers metric (Text.words cs) = .ok v := by
  rw [readNumbers_eq_ok_iff]
  simp only [← isTimestamp_iff, ← Text.spaced_iff]
  constructor
  · intro h
    obtain ⟨number, stamps, hspaced, hread, hstamps⟩ := h.exists_spaced
    exact ⟨number, stamps, hspaced, hread, hstamps⟩
  · rintro ⟨number, stamps, hspaced, hread, hstamps⟩
    exact .of_spaced hread hstamps hspaced

/-! ## Lines -/

/-- What is spelled behind a name is no part of it, and its labels are read. -/
theorem exists_of_spelledBlock {metric : String} {block numbers : List Char} {ls : List Label} {v : Binary64}
    (hblock : SpelledBlock block ls) (hnumbers : SpelledNumbers numbers v) :
    (∃ c rest, block ++ numbers = c :: rest ∧ isMetricChar c = false) ∧
      ∃ r, readLabelBlock metric (block ++ numbers) = .ok (ls, r) ∧ Text.words r = Text.words numbers := by
  cases hblock with
  | @blank c hc =>
    refine ⟨⟨c, numbers, rfl, isMetricChar_of_isBlank hc⟩, ?_⟩
    obtain ⟨number, stamps, hspaced, hnumber, -⟩ := hnumbers.exists_spaced
    rw [← Text.words_cons hc numbers]
    exact readLabelBlock_of_words ((Text.words_cons hc numbers).trans hspaced.words_eq) hnumber
  | @braces gap body ls hgap hbody =>
    have hread : readLabelBlock metric (gap ++ '{' :: body ++ numbers) = .ok (ls, numbers) := by
      rw [List.append_assoc, readLabelBlock, skipGap_append hgap, List.cons_append, skipGap_cons (by decide)]
      exact readLabels_of_spelled hbody numbers
    refine ⟨?_, numbers, hread, rfl⟩
    cases gap with
    | nil => exact ⟨'{', body ++ numbers, rfl, by decide⟩
    | cons c gap =>
      have hc : isGap c = true := List.all_eq_true.mp hgap c List.mem_cons_self
      exact ⟨c, _, rfl, isMetricChar_of_isGap hc⟩

/-- Labels that were read behind a name are spelled there, or there are none. -/
theorem spelled_of_readLabelBlock {metric : String} {rest r : List Char} {ls : List Label}
    (h : readLabelBlock metric rest = .ok (ls, r)) (hfeed : '\n' ∉ rest) :
    (∃ block, rest = block ++ r ∧ SpelledBlock block ls) ∨ ls = [] ∧ Text.words r = Text.words rest := by
  obtain ⟨gap, hgap, hrest⟩ := exists_gap rest
  unfold readLabelBlock at h
  split at h
  next body hbrace =>
    left
    rw [hbrace] at hrest
    obtain ⟨labels, rfl, hlabels⟩ := exists_spelledLabels h fun hmem => hfeed (by rw [hrest]; simp [hmem])
    exact ⟨gap ++ '{' :: labels, by rw [hrest]; simp, .braces hgap hlabels⟩
  next =>
    cases h
    exact .inr ⟨rfl, words_skipGap rest⟩

/-- A line that is read is a spelling of what was read, unless its number stands right behind its name. -/
theorem spelling_or_attached_of_read {line : List Char} {s : SampleLine} (h : SampleLine.read line = .ok s)
    (hfeed : '\n' ∉ line) : Spelling line s ∨ Attached line s := by
  obtain ⟨hne, hname, rest, r, hline, hend, hblock, hvalue⟩ := SampleLine.read_eq_ok_iff.mp h
  have hrestfeed : '\n' ∉ rest := fun hmem => hfeed (by rw [hline]; simp [hmem])
  rcases spelled_of_readLabelBlock hblock hrestfeed with ⟨block, rfl, hspelled⟩ | ⟨hlabels, hwords⟩
  · rw [hline]
    exact .inl (.spelled hne hname hspelled (spelledNumbers_iff.mpr hvalue))
  · obtain ⟨c, rest', hline'⟩ := exists_behind_name h
    obtain rfl := List.append_cancel_left (hline.symm.trans hline')
    cases hblank : Text.isBlank c with
    | true =>
      left
      rw [hwords, Text.words_cons hblank] at hvalue
      have hspelled : SpelledBlock [c] s.labels := hlabels ▸ .blank hblank
      rw [hline]
      exact .spelled hne hname hspelled (spelledNumbers_iff.mpr hvalue)
    | false =>
      rw [hwords] at hvalue
      exact .inr (attached_of_readNumbers hlabels hline hblank (hend c rfl) hvalue)

/-- **Every spelling of a sample is read back.** A line with a name, labels in braces or a blank, a number and perhaps a
timestamp is read as its name, its labels in the same order and with the values that were escaped, and its number,
whatever gaps stand around the tokens of the labels and whatever blanks around the numbers. -/
theorem read_of_spelling {line : List Char} {s : SampleLine} (h : Spelling line s) :
    SampleLine.read line = .ok s := by
  obtain ⟨hne, hname, hblock, hnumbers⟩ := h
  obtain ⟨⟨c, rest, hrest, hc⟩, r, hread, hwords⟩ := exists_of_spelledBlock hblock hnumbers
  refine SampleLine.read_eq_ok_iff.mpr ⟨hne, hname, _, r, rfl, ?_, hread, ?_⟩
  · rw [hrest]
    simpa using hc
  · rw [hwords]
    exact spelledNumbers_iff.mp hnumbers

/-- A label whose value has quotes, a backslash, a line feed and a character of several bytes. -/
def oddLabel : Label := ⟨"path", "\"\\\né"⟩

/-- A line with gaps, a comma behind its last label, and a timestamp. -/
def gappedLine : List Char := "up\t\x7b path = \"\\\"\\\\\\né\"\t,le=\"1\", \x7d 1e3 \t-7".toList

/-- What the line says. -/
def gappedSample : SampleLine := ⟨"up", [oddLabel, ⟨"le", "1"⟩], (1000 : Nat)⟩

/-- The odd value is read back, and the gaps, the last comma and the timestamp are not. -/
theorem read_of_spelling_gappedLine :
    Spelling gappedLine gappedSample ∧ SampleLine.read gappedLine = .ok gappedSample := by
  have hpath := @SpelledLabel.spelled [' '] [' '] [' '] ['\t'] oddLabel rfl rfl rfl rfl ⟨by decide, by decide⟩
  have hbound := @SpelledLabel.spelled [] [] [] [] ⟨"le", "1"⟩ rfl rfl rfl rfl ⟨by decide, by decide⟩
  have hlabels := SpelledLabels.comma hpath (.comma hbound (@SpelledLabels.none [' '] rfl))
  have hblock := @SpelledBlock.braces ['\t'] _ _ rfl hlabels
  have hstamp := @IsTimestamp.minus ['7'] (by decide) (List.forall_mem_singleton.mpr (by decide)) (by decide)
  have hnumbers := @SpelledNumbers.stamped [' '] ['1', 'e', '3'] [' ', '\t'] _ [] (1000 : Nat) (by decide)
    (by decide +kernel) (by decide) (by decide) hstamp Text.blanks_nil
  have hspelled := @Spelling.spelled gappedSample _ _ (by decide) (by decide) hblock hnumbers
  have hline : Spelling gappedLine gappedSample := by
    refine Eq.subst ?_ hspelled
    decide +kernel
  exact ⟨hline, read_of_spelling hline⟩

end MetricGateway.TextFormat
