import MetricGateway.Proofs.TextFormat.Escape

/-!
# Escaping by replacement

Escaping character by character is the same as replacing one character after the other in the whole text, backslashes
first (`escapeHelp_eq_replace`, `escapeValue_eq_replace`). An escaped value ends with an even number of backslashes
(`even_backslashesAtEnd`), so each double quote in it stands behind an odd number of them (`quotesEscaped_escapeValue`).
-/

namespace MetricGateway

/-! ## Replacements -/

/-- The text with another text instead of each occurrence of a character. -/
def Text.replace (c : Char) (instead cs : List Char) : List Char := cs.flatMap fun d => if d = c then instead else [d]

namespace TextFormat

/-- Replacements one after the other act on each character of the first text by itself. -/
theorem replace_flatMap (c : Char) (instead : List Char) (f : Char → List Char) (cs : List Char) :
    Text.replace c instead (cs.flatMap f) = cs.flatMap fun d => Text.replace c instead (f d) :=
  List.flatMap_assoc

theorem replace_replace (c d : Char) (forC forD cs : List Char) :
    Text.replace d forD (Text.replace c forC cs) =
      cs.flatMap fun e => Text.replace d forD (if e = c then forC else [e]) :=
  replace_flatMap d forD _ cs

theorem replace_singleton (c d : Char) (instead : List Char) :
    Text.replace c instead [d] = if d = c then instead else [d] := List.append_nil _

theorem escapeHelp_eq_replace (help : List Char) :
    escapeHelp help = Text.replace '\n' ['\\', 'n'] (Text.replace '\\' ['\\', '\\'] help) := by
  rw [replace_replace]
  refine List.flatMap_congr fun d _ => ?_
  unfold escapeHelpChar
  split
  · rfl
  · rw [replace_singleton]

/-- **A value is escaped by three replacements.** The backslashes come first, since the others bring new ones. -/
theorem escapeValue_eq_replace (value : List Char) :
    escapeValue value =
      Text.replace '\n' ['\\', 'n'] (Text.replace '"' ['\\', '"'] (Text.replace '\\' ['\\', '\\'] value)) := by
  rw [replace_replace '\\', replace_flatMap]
  refine List.flatMap_congr fun d _ => ?_
  unfold escapeValueChar escapeHelpChar
  by_cases hquote : d = '"'
  · subst hquote
    rfl
  · split
    next h => exact absurd h hquote
    split
    · rfl
    · rw [replace_singleton, if_neg hquote, replace_singleton]

/-- The other way round, the backslash of an escaped line feed would be escaped itself. -/
example : Text.replace '\\' ['\\', '\\'] (Text.replace '\n' ['\\', 'n'] ['\n']) ≠ escapeValue ['\n'] := by decide

/-! ## Quotes -/

/-- The number of backslashes at the end of a text. -/
def backslashesAtEnd (cs : List Char) : Nat := (cs.rtakeWhile (· = '\\')).length

/-- Every double quote of the text is escaped: it stands behind an odd number of backslashes. -/
def QuotesEscaped (cs : List Char) : Prop :=
  ∀ before behind, cs = before ++ '"' :: behind → backslashesAtEnd before % 2 = 1

theorem backslashesAtEnd_concat (cs : List Char) (c : Char) :
    backslashesAtEnd (cs ++ [c]) = if c = '\\' then backslashesAtEnd cs + 1 else 0 := by
  unfold backslashesAtEnd
  rw [List.rtakeWhile_concat]
  split <;> simp_all

theorem backslashesAtEnd_append_escape (cs : List Char) (d : Char) :
    backslashesAtEnd (cs ++ ['\\', d]) = if d = '\\' then backslashesAtEnd cs + 2 else 0 := by
  have hlast : cs ++ ['\\', d] = cs ++ ['\\'] ++ [d] := by simp
  rw [hlast, backslashesAtEnd_concat, backslashesAtEnd_concat, if_pos rfl]

/-- A character is written as two backslashes, as a backslash and something else, or as itself. -/
theorem escapeValueChar_cases (c : Char) : escapeValueChar c = ['\\', '\\'] ∨
    ∃ d, d ≠ '\\' ∧ (escapeValueChar c = ['\\', d] ∨ escapeValueChar c = [d] ∧ d ≠ '"') := by
  unfold escapeValueChar escapeHelpChar
  split
  · exact .inr ⟨'"', by decide, .inl rfl⟩
  next hquote =>
    split
    · exact .inl rfl
    next hslash =>
      split
      · exact .inr ⟨'n', by decide, .inl rfl⟩
      · exact .inr ⟨c, hslash, .inr ⟨rfl, hquote⟩⟩

theorem escapeValue_concat (value : List Char) (c : Char) :
    escapeValue (value ++ [c]) = escapeValue value ++ escapeValueChar c := by
  simp [escapeValue]

/-- No escape is left open at the end of an escaped value. -/
theorem even_backslashesAtEnd (value : List Char) : backslashesAtEnd (escapeValue value) % 2 = 0 := by
  induction value using List.reverseRecOn with
  | nil => rfl
  | append_singleton value c ih =>
    rw [escapeValue_concat]
    rcases escapeValueChar_cases c with hc | ⟨d, hd, hc | ⟨hc, -⟩⟩
    · rw [hc, backslashesAtEnd_append_escape, if_pos rfl, Nat.add_mod_right, ih]
    · rw [hc, backslashesAtEnd_append_escape, if_neg hd]
    · rw [hc, backslashesAtEnd_concat, if_neg hd]

/-- A double quote is written behind a backslash. -/
theorem eq_of_escapeValueChar_eq_append {c : Char} {before behind : List Char}
    (h : escapeValueChar c = before ++ '"' :: behind) : before = ['\\'] := by
  rcases escapeValueChar_cases c with hc | ⟨d, hd, hc | ⟨hc, hquote⟩⟩
  · have hmem : '"' ∈ escapeValueChar c := h ▸ by simp
    rw [hc] at hmem
    exact absurd hmem (by decide)
  · rw [hc] at h
    rcases before with _ | ⟨b, _ | ⟨b', before⟩⟩
    · cases h
    · cases h
      rfl
    · simp at h
  · rw [hc] at h
    rcases before with _ | ⟨b, before⟩
    · cases h
      exact absurd rfl hquote
    · simp at h

/-- **No double quote of an escaped value ends it.** -/
theorem quotesEscaped_escapeValue (value : List Char) : QuotesEscaped (escapeValue value) := by
  induction value using List.reverseRecOn with
  | nil =>
    intro before behind h
    simp [escapeValue] at h
  | append_singleton value c ih =>
    intro before behind h
    rw [escapeValue_concat] at h
    rcases List.append_eq_append_iff.mp h with ⟨between, rfl, hc⟩ | ⟨between, hvalue, hquote⟩
    · -- the quote stands in the escape of the last character
      have heven := even_backslashesAtEnd value
      rw [eq_of_escapeValueChar_eq_append hc, backslashesAtEnd_concat, if_pos rfl]
      omega
    · cases between with
      | nil =>
        have hnone : [] = ['\\'] := eq_of_escapeValueChar_eq_append hquote.symm
        cases hnone
      | cons d between =>
        cases hquote
        exact ih before between hvalue

end TextFormat
end MetricGateway
