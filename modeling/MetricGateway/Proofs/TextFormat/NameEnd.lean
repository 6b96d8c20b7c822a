import MetricGateway.Proofs.TextFormat.SampleLine

/-!
# Where the name of a sample ends

The name of a sample ends in front of the first character of the line that is not of its class, whatever this is.
Usually it is a space, a tab or a brace, but two kinds of lines are read as well in which it is not (`name_ends_iff`): a
number that starts with a sign or a point may stand right behind the name (`Attached`), and so may any other blank
(`OddlySpaced`).
-/

namespace MetricGateway.TextFormat

/-- A character of a number that is none of a name is a sign or a point. -/
theorem sign_or_point_of_isNumberChar {c : Char} (h : isNumberChar c = true) (hc : isMetricChar c = false) :
    c = '+' ∨ c = '-' ∨ c = '.' := by
  simp only [isMetricChar, Bool.or_eq_false_iff] at hc
  simpa [isNumberChar, hc.1.1, or_assoc] using h

/-- The number of the sample stands right behind its name: it starts with a sign or a point, and a blank or nothing
follows it. -/
def Attached (line : List Char) (s : SampleLine) : Prop :=
  s.labels = [] ∧ ∃ c t rest, line = s.name.toList ++ c :: (t ++ rest) ∧ (c = '+' ∨ c = '-' ∨ c = '.') ∧
    Binary64.read? (c :: t) = some s.value ∧ Text.StartsBlank rest

/-- A blank that is no space and no tab stands right behind the name of the sample. -/
def OddlySpaced (line : List Char) (s : SampleLine) : Prop :=
  s.labels = [] ∧ ∃ c rest, line = s.name.toList ++ c :: rest ∧ Text.isBlank c = true ∧ isGap c = false

/-- Numbers that stand behind the name without a blank are attached to it. -/
theorem attached_of_readNumbers {line rest : List Char} {c : Char} {s : SampleLine} (hlabels : s.labels = [])
    (hline : line = s.name.toList ++ c :: rest) (hblank : Text.isBlank c = false) (hmetric : isMetricChar c = false)
    (hvalue : readNumbers s.name (Text.words (c :: rest)) = .ok s.value) : Attached line s := by
  obtain ⟨number, stamps, hwords, hread, -⟩ := readNumbers_eq_ok_iff.mp hvalue
  obtain ⟨t, back, rfl, rfl, hback⟩ := Text.head_words hblank hwords
  refine ⟨hlabels, c, t, back, hline, ?_, hread, hback⟩
  exact sign_or_point_of_isNumberChar (Binary64.isNumberChar_of_read? hread c List.mem_cons_self) hmetric

/-- In a line that is read, the number or an odd blank stands behind the name exactly if no gap and no brace does. -/
theorem attached_or_oddlySpaced_iff {line rest : List Char} {c : Char} {s : SampleLine}
    (h : SampleLine.read line = .ok s) (hline : line = s.name.toList ++ c :: rest) :
    Attached line s ∨ OddlySpaced line s ↔ isGap c = false ∧ c ≠ '{' := by
  constructor
  · rintro (⟨-, d, t, back, hline', hd, -⟩ | ⟨-, d, back, hline', hblank, hgap⟩)
    · cases List.append_cancel_left (hline.symm.trans hline')
      rcases hd with rfl | rfl | rfl <;> decide
    · cases List.append_cancel_left (hline.symm.trans hline')
      refine ⟨hgap, ?_⟩
      rintro rfl
      exact absurd hblank (by decide)
  · rintro ⟨hgap, hbrace⟩
    obtain ⟨-, -, rest', r, hline', hend, hblock, hvalue⟩ := SampleLine.read_eq_ok_iff.mp h
    obtain rfl := List.append_cancel_left (hline'.symm.trans hline)
    obtain ⟨hlabels, rfl⟩ : s.labels = [] ∧ r = c :: rest := by
      rw [readLabelBlock, skipGap_cons hgap] at hblock
      split at hblock
      next hcons =>
        cases hcons
        exact absurd rfl hbrace
      next =>
        simp only [Except.ok.injEq, Prod.mk.injEq] at hblock
        exact ⟨hblock.1.symm, hblock.2.symm⟩
    cases hblank : Text.isBlank c with
    | true => exact .inr ⟨hlabels, c, rest, hline, hblank, hgap⟩
    | false => exact .inl (attached_of_readNumbers hlabels hline hblank (hend c rfl) hvalue)

/-- A line that is read does not end with its name. -/
theorem exists_behind_name {line : List Char} {s : SampleLine} (h : SampleLine.read line = .ok s) :
    ∃ c rest, line = s.name.toList ++ c :: rest := by
  obtain ⟨-, -, rest, r, rfl, -, hblock, hvalue⟩ := SampleLine.read_eq_ok_iff.mp h
  cases rest with
  | nil =>
    obtain ⟨-, rfl⟩ : s.labels = [] ∧ r = [] := by simpa [readLabelBlock, skipGap, eq_comm] using hblock
    obtain ⟨number, stamps, hwords, -⟩ := readNumbers_eq_ok_iff.mp hvalue
    cases hwords
  | cons c rest => exact ⟨c, rest, rfl⟩

/-- A name goes up to the first gap or brace exactly if the character behind it is one. -/
theorem takeWhile_name_iff {name rest : List Char} {c : Char} (hname : name.all isMetricChar = true) :
    (name ++ c :: rest).takeWhile (fun d => !isGap d && d != '{') = name ↔ isGap c = true ∨ c = '{' := by
  have hall : ∀ d ∈ name, (!isGap d && d != '{') = true := by
    intro d hd
    have hmetric : isMetricChar d = true := List.all_eq_true.mp hname d hd
    have hbrace : d ≠ '{' := by
      rintro rfl
      exact absurd hmetric (by decide)
    simp [isGap_of_isBlank (isBlank_of_isMetricChar hmetric), hbrace]
  rw [List.takeWhile_append_of_pos hall, List.append_right_eq_self, List.takeWhile_cons]
  by_cases hgap : isGap c = true <;> by_cases hbrace : c = '{' <;> simp [hgap, hbrace]

/-- **Where the name of a sample ends.** In a line that is read, a space, a tab or an opening brace stands behind the
name of the sample unless the number stands there, starting with a sign or a point, or another blank does. In all other
lines, and in these only, the name is the whole text up to the first space, tab or opening brace. -/
theorem name_ends_iff {line : List Char} {s : SampleLine} (h : SampleLine.read line = .ok s) :
    ((∃ c rest, line = s.name.toList ++ c :: rest ∧ (c = ' ' ∨ c = '\t' ∨ c = '{')) ↔
        ¬ (Attached line s ∨ OddlySpaced line s)) ∧
      (line.takeWhile (fun c => !isGap c && c != '{') = s.name.toList ↔ ¬ (Attached line s ∨ OddlySpaced line s)) := by
  obtain ⟨c, rest, hline⟩ := exists_behind_name h
  obtain ⟨-, hname, -⟩ := SampleLine.read_eq_ok_iff.mp h
  have hends : ¬ (Attached line s ∨ OddlySpaced line s) ↔ isGap c = true ∨ c = '{' := by
    rw [attached_or_oddlySpaced_iff h hline, not_and_or, Bool.not_eq_false, not_not]
  constructor
  · rw [hends]
    constructor
    · rintro ⟨d, back, hline', hd⟩
      cases List.append_cancel_left (hline.symm.trans hline')
      rcases hd with rfl | rfl | rfl
      · exact .inl rfl
      · exact .inl rfl
      · exact .inr rfl
    · intro hc
      refine ⟨c, rest, hline, ?_⟩
      simpa [isGap, or_assoc] using hc
  · rw [hends, hline]
    exact takeWhile_name_iff hname

/-- A line whose labels stand right behind the name. -/
def upLine : List Char := "up\x7bjob=\"a\"\x7d 1".toList

/-- What the line says. -/
def upSample : SampleLine := ⟨"up", [⟨"job", "a"⟩], (1 : Nat)⟩

/-- A brace stands behind the name of the job, so no number and no odd blank does. -/
theorem name_ends_iff_upLine :
    SampleLine.read upLine = .ok upSample ∧ ¬ (Attached upLine upSample ∨ OddlySpaced upLine upSample) := by
  have hread : SampleLine.read upLine = .ok upSample := by decide +kernel
  exact ⟨hread, (name_ends_iff hread).1.mp ⟨'{', "job=\"a\"\x7d 1".toList, by decide +kernel, by decide⟩⟩

/-- The name in front of a dash is read as a name, and the rest as a number below zero. -/
theorem dash_read_as_sign :
    SampleLine.read "a-1".toList = .ok ⟨"a", [], Decimal.toBinary64 true ⟨1, 0⟩⟩ ∧
      ¬ ∃ c rest, "a-1".toList = "a".toList ++ c :: rest ∧ (c = ' ' ∨ c = '\t' ∨ c = '{') := by
  refine ⟨by decide +kernel, ?_⟩
  rintro ⟨c, rest, hline, hc⟩
  cases List.append_cancel_left (show "a".toList ++ ['-', '1'] = "a".toList ++ c :: rest from hline)
  rcases hc with hc | hc | hc <;> exact absurd hc (by decide)

end MetricGateway.TextFormat
