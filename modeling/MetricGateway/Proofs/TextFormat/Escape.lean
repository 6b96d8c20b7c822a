import MetricGateway.Proofs.Text.Blank
import MetricGateway.TextFormat.Escape

/-!
# Reading back escaped texts

A label value is read back up to its closing quote (`readValue_escapeValue`), whatever follows it (`readValue_append`),
and a help text is read back as a whole (`unescapeHelp_escapeHelp`). But a help text stands at the end of a line, where
blanks are lost, except for a line feed, which is written as an escape: such *padding* at the end of a help does not
come back (`unescapeHelp_trimEnd`). A help that was read from a trimmed line has none (`settled_unescapeHelp`).
-/

namespace MetricGateway.TextFormat

/-! ## Label values -/

theorem readValue_of_ne {c : Char} {r : List Char} (hquote : c ≠ '"') (hslash : c ≠ '\\') :
    readValue (c :: r) = consValue c <$> readValue r := by
  rw [readValue.eq_def]
  split <;> simp_all

/-- A character that starts no escape, complete or not, is no backslash. -/
theorem ne_of_not_escape {c : Char} {r : List Char} (hescape : ∀ d t, c = '\\' → r = d :: t → False)
    (hend : c = '\\' → r = [] → False) : c ≠ '\\' := by
  intro hc
  cases r with
  | nil => exact hend hc rfl
  | cons d t => exact hescape d t hc rfl

theorem readValue_escapeValueChar (c : Char) (r : List Char) :
    readValue (escapeValueChar c ++ r) = consValue c <$> readValue r := by
  unfold escapeValueChar escapeHelpChar
  by_cases hquote : c = '"'
  · rw [if_pos hquote, hquote]
    rfl
  by_cases hslash : c = '\\'
  · rw [if_neg hquote, if_pos hslash, hslash]
    rfl
  by_cases hfeed : c = '\n'
  · rw [if_neg hquote, if_neg hslash, if_pos hfeed, hfeed]
    rfl
  · rw [if_neg hquote, if_neg hslash, if_neg hfeed]
    exact readValue_of_ne hquote hslash

theorem readValue_escapeValue (v r : List Char) : readValue (escapeValue v ++ '"' :: r) = .ok (v, r) := by
  induction v with
  | nil => rfl
  | cons c v ih =>
    rw [escapeValue, List.flatMap_cons, List.append_assoc, readValue_escapeValueChar, ← escapeValue, ih]
    rfl

/-- What follows a value does not change how it is read. -/
theorem readValue_append {cs v r : List Char} (h : readValue cs = .ok (v, r)) (t : List Char) :
    readValue (cs ++ t) = .ok (v, r ++ t) := by
  fun_induction readValue cs generalizing v with
  | case1 | case6 | case7 => cases h
  | case2 => cases h; rfl
  | case3 r' ih | case4 r' ih | case5 r' ih =>
    obtain ⟨w, hw, rfl⟩ := consValue_map_eq_ok.mp h
    exact consValue_map_eq_ok.mpr ⟨w, ih hw, rfl⟩
  | case8 c r' hquote _ _ _ hescape hend ih =>
    obtain ⟨w, hw, rfl⟩ := consValue_map_eq_ok.mp h
    rw [List.cons_append, readValue_of_ne hquote (ne_of_not_escape hescape hend)]
    exact consValue_map_eq_ok.mpr ⟨w, ih hw, rfl⟩

/-- A value that was read ends where the rest starts. -/
theorem exists_prefix_of_readValue {cs v r : List Char} (h : readValue cs = .ok (v, r)) :
    ∃ q, cs = q ++ r ∧ readValue q = .ok (v, []) := by
  fun_induction readValue cs generalizing v with
  | case1 | case6 | case7 => cases h
  | case2 => cases h; exact ⟨['"'], rfl, rfl⟩
  | case3 r' ih | case4 r' ih | case5 r' ih =>
    obtain ⟨w, hw, rfl⟩ := consValue_map_eq_ok.mp h
    obtain ⟨q, rfl, hq⟩ := ih hw
    exact ⟨_ :: _ :: q, rfl, consValue_map_eq_ok.mpr ⟨w, hq, rfl⟩⟩
  | case8 c r' hquote _ _ _ hescape hend ih =>
    have hslash := ne_of_not_escape hescape hend
    obtain ⟨w, hw, rfl⟩ := consValue_map_eq_ok.mp h
    obtain ⟨q, rfl, hq⟩ := ih hw
    refine ⟨c :: q, rfl, ?_⟩
    rw [readValue_of_ne hquote hslash]
    exact consValue_map_eq_ok.mpr ⟨w, hq, rfl⟩

/-- On one line there is a single way to write a value. -/
theorem eq_escapeValue_of_readValue {cs v r : List Char} (h : readValue cs = .ok (v, r)) (hfeed : '\n' ∉ cs) :
    cs = escapeValue v ++ '"' :: r := by
  fun_induction readValue cs generalizing v with
  | case1 | case6 | case7 => cases h
  | case2 => cases h; rfl
  | case3 r' ih | case4 r' ih | case5 r' ih =>
    obtain ⟨w, hw, rfl⟩ := consValue_map_eq_ok.mp h
    obtain rfl := ih hw fun hmem => hfeed (List.mem_cons_of_mem _ (List.mem_cons_of_mem _ hmem))
    rfl
  | case8 c r' hquote _ _ _ hescape hend ih =>
    have hslash := ne_of_not_escape hescape hend
    obtain ⟨w, hw, rfl⟩ := consValue_map_eq_ok.mp h
    obtain rfl := ih hw fun hmem => hfeed (List.mem_cons_of_mem _ hmem)
    have hc : c ≠ '\n' := fun hc => hfeed (hc ▸ List.mem_cons_self)
    have hcons : escapeValue (c :: w) = c :: escapeValue w := by
      rw [escapeValue, List.flatMap_cons, escapeValueChar, if_neg hquote, escapeHelpChar, if_neg hslash, if_neg hc]
      rfl
    rw [hcons]
    rfl

theorem readQuoted_eq_ok_iff {cs v r : List Char} :
    readQuoted cs = .ok (v, r) ↔ ∃ value, cs = '"' :: value ∧ readValue value = .ok (v, r) := by
  unfold readQuoted
  split
  next value =>
    constructor
    · exact fun h => ⟨value, rfl, h⟩
    · rintro ⟨_, hcs, h⟩
      cases hcs
      exact h
  next hne =>
    constructor
    · intro h
      cases h
    · rintro ⟨value, rfl, -⟩
      exact absurd rfl (hne value)

/-! ## Help texts -/

theorem unescapeHelp_of_ne {c : Char} {r : List Char} (hslash : c ≠ '\\') :
    unescapeHelp (c :: r) = c :: unescapeHelp r := by
  rw [unescapeHelp.eq_def]
  split <;> simp_all

theorem unescapeHelp_escapeHelpChar (c : Char) (r : List Char) :
    unescapeHelp (escapeHelpChar c ++ r) = c :: unescapeHelp r := by
  unfold escapeHelpChar
  by_cases hslash : c = '\\'
  · rw [if_pos hslash, hslash]
    rfl
  by_cases hfeed : c = '\n'
  · rw [if_neg hslash, if_pos hfeed, hfeed]
    rfl
  · rw [if_neg hslash, if_neg hfeed]
    exact unescapeHelp_of_ne hslash

theorem unescapeHelp_escapeHelp (h : List Char) : unescapeHelp (escapeHelp h) = h := by
  induction h with
  | nil => rfl
  | cons c h ih => rw [escapeHelp, List.flatMap_cons, unescapeHelp_escapeHelpChar, ← escapeHelp, ih]

/-- A blank that is lost at the end of a line. -/
def isPadding (c : Char) : Bool := Text.isBlank c && c != '\n'

/-- A help text without padding at its end. -/
def settle (h : List Char) : List Char := Text.trimEnd isPadding h

/-- Padding is not escaped, and every other character ends with one that is not blank. -/
theorem trimEnd_escapeHelp (h : List Char) : Text.trimEnd Text.isBlank (escapeHelp h) = escapeHelp (settle h) := by
  induction h using List.reverseRecOn with
  | nil => rfl
  | append_singleton h c ih =>
    have hsplit : escapeHelp (h ++ [c]) = escapeHelp h ++ escapeHelpChar c := by simp [escapeHelp]
    by_cases hc : isPadding c = true
    · obtain ⟨hblank, hfeed⟩ : Text.isBlank c = true ∧ c ≠ '\n' := by simpa [isPadding] using hc
      have hslash : c ≠ '\\' := by
        rintro rfl
        exact absurd hblank (by decide)
      rw [hsplit, escapeHelpChar, if_neg hslash, if_neg hfeed, Text.trimEnd_concat_of_pos hblank, ih, settle, settle,
        Text.trimEnd_concat_of_pos hc]
    · have hend : Text.trimEnd Text.isBlank (escapeHelpChar c) = escapeHelpChar c := by
        unfold escapeHelpChar
        split
        · decide
        split
        · decide
        next hfeed =>
          have hblank : Text.isBlank c = false := by simpa [isPadding, hfeed] using hc
          exact Text.trimEnd_singleton_of_neg hblank
      have hne : escapeHelpChar c ≠ [] := by
        unfold escapeHelpChar
        repeat' split
        all_goals simp
      rw [hsplit, (Text.trimEnd_append_eq_self_iff hne).mpr hend, settle,
        Text.trimEnd_concat_of_neg (by simpa using hc), hsplit]

theorem unescapeHelp_trimEnd (h : List Char) : unescapeHelp (Text.trimEnd Text.isBlank (escapeHelp h)) = settle h := by
  rw [trimEnd_escapeHelp, unescapeHelp_escapeHelp]

theorem eq_nil_of_unescapeHelp {r : List Char} (h : unescapeHelp r = []) : r = [] := by
  rw [unescapeHelp.eq_def] at h
  split at h
  · rfl
  all_goals cases h

theorem settle_cons {c : Char} {s : List Char} (hs : settle s = s) (hc : s = [] → isPadding c = false) :
    settle (c :: s) = c :: s := by
  by_cases hnil : s = []
  · rw [hnil]
    exact Text.trimEnd_singleton_of_neg (hc hnil)
  · exact (Text.trimEnd_append_eq_self_iff (a := [c]) hnil).mpr hs

/-- The last character of a trimmed text is no padding. -/
theorem isPadding_of_trimEnd {c : Char} (h : Text.trimEnd Text.isBlank [c] = [c]) : isPadding c = false := by
  have hblank : Text.isBlank c = false := Text.trimEnd_eq_self_iff.mp h (by simp)
  simp [isPadding, hblank]

theorem settled_unescapeHelp {r : List Char} (h : Text.trimEnd Text.isBlank r = r) :
    settle (unescapeHelp r) = unescapeHelp r := by
  fun_induction unescapeHelp r with
  | case1 => rfl
  | case2 r ih | case3 r ih =>
    have hr := ih (Text.trimEnd_eq_self_of_suffix h ⟨[_, _], rfl⟩)
    exact settle_cons hr fun _ => by decide
  | case4 c r _ _ ih =>
    have hr := ih (Text.trimEnd_eq_self_of_suffix h ⟨[_, _], rfl⟩)
    refine settle_cons (settle_cons hr fun hnil => ?_) fun _ => by decide
    cases eq_nil_of_unescapeHelp hnil
    exact isPadding_of_trimEnd (Text.trimEnd_eq_self_of_suffix h ⟨[_], rfl⟩)
  | case5 c r _ _ _ ih =>
    have hr := ih (Text.trimEnd_eq_self_of_suffix h ⟨[_], rfl⟩)
    refine settle_cons hr fun hnil => ?_
    cases eq_nil_of_unescapeHelp hnil
    exact isPadding_of_trimEnd h

end MetricGateway.TextFormat
