import MetricGateway.TextFormat.Fault

/-!
# Escapes of the text format

In a help text a backslash is written twice and a line feed as `\n`; in a label value a double quote is escaped as well.
`readQuoted` reads a label value between double quotes and refuses every other escape, while `unescapeHelp` keeps other
escapes of a help text as they are.
-/

namespace MetricGateway.TextFormat

/-- A character of a help text. -/
def escapeHelpChar (c : Char) : List Char :=
  if c = '\\' then ['\\', '\\'] else if c = '\n' then ['\\', 'n'] else [c]

/-- A help text as it is written. -/
def escapeHelp (cs : List Char) : List Char := cs.flatMap escapeHelpChar

/-- The help text that was written. -/
def unescapeHelp : List Char → List Char
  | [] => []
  | '\\' :: '\\' :: r => '\\' :: unescapeHelp r
  | '\\' :: 'n' :: r => '\n' :: unescapeHelp r
  | '\\' :: c :: r => '\\' :: c :: unescapeHelp r
  | c :: r => c :: unescapeHelp r

/-- A character of a label value. -/
def escapeValueChar (c : Char) : List Char := if c = '"' then ['\\', '"'] else escapeHelpChar c

/-- A label value as it is written between quotes. -/
def escapeValue (cs : List Char) : List Char := cs.flatMap escapeValueChar

/-- Puts a character in front of a value that was read. -/
def consValue (c : Char) (x : List Char × List Char) : List Char × List Char := (c :: x.1, x.2)

/-- Reads a label value up to its closing quote: the value and what follows. -/
def readValue : List Char → Except LineFault (List Char × List Char)
  | [] => .error .unterminatedValue
  | '"' :: r => .ok ([], r)
  | '\\' :: '\\' :: r => consValue '\\' <$> readValue r
  | '\\' :: '"' :: r => consValue '"' <$> readValue r
  | '\\' :: 'n' :: r => consValue '\n' <$> readValue r
  | '\\' :: c :: _ => .error (.invalidEscape c)
  | ['\\'] => .error .unterminatedValue
  | c :: r => consValue c <$> readValue r

/-- Reads a label value between quotes. -/
def readQuoted : List Char → Except LineFault (List Char × List Char)
  | '"' :: r => readValue r
  | _ => .error .missingQuote

/-- A value that starts with a read character. -/
theorem consValue_map_eq_ok {c : Char} {e : Except LineFault (List Char × List Char)} {v r : List Char} :
    consValue c <$> e = .ok (v, r) ↔ ∃ w, e = .ok (w, r) ∧ v = c :: w := by
  cases e with
  | error e => simp [Functor.map, Except.map]
  | ok x =>
    obtain ⟨w, r'⟩ := x
    simp only [Functor.map, Except.map, consValue, Except.ok.injEq, Prod.mk.injEq]
    constructor
    · rintro ⟨rfl, rfl⟩; exact ⟨w, ⟨rfl, rfl⟩, rfl⟩
    · rintro ⟨_, ⟨rfl, rfl⟩, rfl⟩; exact ⟨rfl, rfl⟩

/-- A value that was read is followed by a shorter text. -/
theorem length_readValue {cs v r : List Char} (h : readValue cs = .ok (v, r)) : r.length < cs.length := by
  fun_induction readValue cs generalizing v with
  | case1 | case6 | case7 => cases h
  | case2 r => cases h; simp
  | case3 r ih | case4 r ih | case5 r ih =>
    obtain ⟨w, hw, -⟩ := consValue_map_eq_ok.mp h
    have := ih hw
    simp only [List.length_cons]; omega
  | case8 c r _ _ _ _ _ _ ih =>
    obtain ⟨w, hw, -⟩ := consValue_map_eq_ok.mp h
    have := ih hw
    simp only [List.length_cons]; omega

/-- A quoted value that was read is followed by a shorter text. -/
theorem length_readQuoted {cs v r : List Char} (h : readQuoted cs = .ok (v, r)) : r.length < cs.length := by
  unfold readQuoted at h
  split at h
  · exact Nat.lt_succ_of_lt (length_readValue h)
  · cases h

end MetricGateway.TextFormat
