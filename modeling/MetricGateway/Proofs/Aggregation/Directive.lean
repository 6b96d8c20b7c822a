import MetricGateway.Aggregation
import MetricGateway.Proofs.Text.Blank

/-!
# The directive that counts

A place of a text has a directive if the text goes on from there with its opening, one or more letters and its closing
(`DirectiveAt`), whatever stands before. The search finds the letters of the leftmost place that has one
(`firstDirective?_eq_some_iff`), and these letters alone decide the gauge rule of a help text
(`GaugeRule.ofHelp_eq_iff`).
-/

namespace MetricGateway

/-- From this place on the text goes on with a directive of the letters. -/
structure DirectiveAt (cs : List Char) (i : Nat) (letters : List Char) : Prop where
  someLetter : letters ≠ []
  isAlpha : ∀ c ∈ letters, c.isAlpha = true
  here : directiveOpening ++ letters ++ ['>'] <+: cs.drop i

/-- The place has a directive, and no place before it has one. -/
structure FirstDirectiveAt (cs : List Char) (i : Nat) (letters : List Char) : Prop where
  directive : DirectiveAt cs i letters
  first : ∀ j < i, ∀ other, ¬ DirectiveAt cs j other

/-! ## The search -/

theorem directiveHere?_eq_some_iff {cs letters : List Char} :
    directiveHere? cs = some letters ↔ DirectiveAt cs 0 letters := by
  unfold directiveHere?
  constructor
  · intro h
    split at h
    · cases h
    next r hr =>
      dsimp only at h
      split at h
      next hletters =>
        cases h
        obtain ⟨rest, hrest⟩ := List.head?_eq_some_iff.mp hletters.2
        refine ⟨hletters.1, fun c hc => List.mem_takeWhile_imp hc, rest, ?_⟩
        have hsplit : r.takeWhile Char.isAlpha ++ '>' :: rest = r := by
          rw [← hrest, List.takeWhile_append_dropWhile]
        rw [List.drop_zero, ← List.isPrefixOf?_eq_some_iff_append_eq.mp hr]
        conv_rhs => rw [← hsplit]
        simp only [List.append_assoc, List.singleton_append]
      · cases h
  · rintro ⟨hne, halpha, rest, hrest⟩
    have hafter : directiveOpening.isPrefixOf? cs = some (letters ++ '>' :: rest) := by
      rw [List.drop_zero] at hrest
      rw [List.isPrefixOf?_eq_some_iff_append_eq, ← hrest]
      simp only [List.append_assoc, List.singleton_append]
    have hclosing : Char.isAlpha '>' = false := rfl
    obtain ⟨htake, hdrop⟩ := Text.takeWhile_append_cons (List.all_eq_true.mpr halpha) hclosing rest
    rw [hafter]
    dsimp only
    rw [htake, hdrop, if_pos ⟨hne, rfl⟩]

theorem directiveAt_cons_succ {c : Char} {cs letters : List Char} {i : Nat} :
    DirectiveAt (c :: cs) (i + 1) letters ↔ DirectiveAt cs i letters :=
  ⟨fun ⟨hne, halpha, hhere⟩ => ⟨hne, halpha, hhere⟩, fun ⟨hne, halpha, hhere⟩ => ⟨hne, halpha, hhere⟩⟩

theorem not_directiveAt_nil {i : Nat} {letters : List Char} : ¬ DirectiveAt [] i letters := by
  rintro ⟨-, -, hhere⟩
  rw [List.drop_nil] at hhere
  simp at hhere

/-- The first directive of a text stands at its start, or it is the first one behind the first character. -/
theorem firstDirectiveAt_cons {c : Char} {cs letters : List Char} {i : Nat} :
    FirstDirectiveAt (c :: cs) i letters ↔ (i = 0 ∧ DirectiveAt (c :: cs) 0 letters) ∨
      (∀ other, ¬ DirectiveAt (c :: cs) 0 other) ∧ ∃ j, i = j + 1 ∧ FirstDirectiveAt cs j letters := by
  constructor
  · rintro ⟨hdirective, hfirst⟩
    cases i with
    | zero => exact .inl ⟨rfl, hdirective⟩
    | succ i =>
      refine .inr ⟨hfirst 0 (Nat.succ_pos i), i, rfl, directiveAt_cons_succ.mp hdirective, fun j hj other hother => ?_⟩
      exact hfirst (j + 1) (Nat.succ_lt_succ hj) other (directiveAt_cons_succ.mpr hother)
  · rintro (⟨rfl, hdirective⟩ | ⟨hnone, i, rfl, hdirective, hfirst⟩)
    · exact ⟨hdirective, fun j hj => absurd hj (Nat.not_lt_zero j)⟩
    · refine ⟨directiveAt_cons_succ.mpr hdirective, fun j hj other hother => ?_⟩
      cases j with
      | zero => exact hnone other hother
      | succ j => exact hfirst j (Nat.lt_of_succ_lt_succ hj) other (directiveAt_cons_succ.mp hother)

/-- **The search finds the leftmost directive.** -/
theorem firstDirective?_eq_some_iff {cs letters : List Char} :
    firstDirective? cs = some letters ↔ ∃ i, FirstDirectiveAt cs i letters := by
  induction cs with
  | nil =>
    refine iff_of_false (by simp [firstDirective?]) ?_
    rintro ⟨i, hi⟩
    exact not_directiveAt_nil hi.directive
  | cons c cs ih =>
    have hhere : directiveHere? (c :: cs) = none ↔ ∀ other, ¬ DirectiveAt (c :: cs) 0 other := by
      simp only [← directiveHere?_eq_some_iff, Option.eq_none_iff_forall_ne_some, ne_eq]
    simp only [firstDirective?, Option.or_eq_some_iff, firstDirectiveAt_cons, directiveHere?_eq_some_iff, hhere, ih]
    constructor
    · rintro (h | ⟨hnone, i, hi⟩)
      · exact ⟨0, .inl ⟨rfl, h⟩⟩
      · exact ⟨i + 1, .inr ⟨hnone, i, rfl, hi⟩⟩
    · rintro ⟨_, ⟨-, h⟩ | ⟨hnone, i, -, hi⟩⟩
      · exact .inl h
      · exact .inr ⟨hnone, i, hi⟩

/-- A text has at most one leftmost directive. -/
theorem FirstDirectiveAt.letters_eq {cs letters other : List Char} {i j : Nat} (hi : FirstDirectiveAt cs i letters)
    (hj : FirstDirectiveAt cs j other) : letters = other := by
  have hletters := firstDirective?_eq_some_iff.mpr ⟨i, hi⟩
  have hother := firstDirective?_eq_some_iff.mpr ⟨j, hj⟩
  exact Option.some.inj (hletters.symm.trans hother)

theorem firstDirective?_eq_none_iff {cs : List Char} :
    firstDirective? cs = none ↔ ∀ i letters, ¬ DirectiveAt cs i letters := by
  constructor
  · intro h
    induction cs with
    | nil => exact fun _ _ => not_directiveAt_nil
    | cons c cs ih =>
      obtain ⟨hhere, hrest⟩ := Option.or_eq_none_iff.mp h
      intro i letters hletters
      cases i with
      | zero =>
        rw [directiveHere?_eq_some_iff.mpr hletters] at hhere
        cases hhere
      | succ i => exact ih hrest i letters (directiveAt_cons_succ.mp hletters)
  · intro h
    refine Option.eq_none_iff_forall_ne_some.mpr fun letters hletters => ?_
    obtain ⟨i, hi⟩ := firstDirective?_eq_some_iff.mp hletters
    exact h i letters hi.directive

/-! ## The rule -/

namespace GaugeRule

/-- The letters are the name of the rule, in upper or lower case. -/
def NamedBy (rule : GaugeRule) (letters : List Char) : Prop := letters.map Char.toLower = rule.name.toList

theorem name_injective {r s : GaugeRule} (h : r.name.toList = s.name.toList) : r = s := by
  cases r <;> cases s <;> first | rfl | exact absurd h (by decide)

theorem mem_all (r : GaugeRule) : r ∈ all := by cases r <;> decide

theorem ofName?_eq_some_iff {letters : List Char} {rule : GaugeRule} :
    ofName? (String.ofList letters) = some rule ↔ rule.NamedBy letters := by
  rw [ofName?, String.toList_ofList, NamedBy]
  constructor
  · intro h
    have hname := List.find?_some h
    exact (of_decide_eq_true hname).symm
  · intro h
    have hsome : (all.find? (·.name.toList = letters.map Char.toLower)).isSome :=
      List.find?_isSome.mpr ⟨rule, rule.mem_all, decide_eq_true h.symm⟩
    obtain ⟨r, hr⟩ := Option.isSome_iff_exists.mp hsome
    have hname := List.find?_some hr
    rw [hr, name_injective ((of_decide_eq_true hname).trans h)]

/-- The rule that letters stand for. -/
theorem getD_ofName?_eq_iff {letters : List Char} {rule default : GaugeRule} :
    (ofName? (String.ofList letters)).getD default = rule ↔
      rule.NamedBy letters ∨ (∀ r : GaugeRule, ¬ r.NamedBy letters) ∧ rule = default := by
  simp only [← ofName?_eq_some_iff]
  cases ofName? (String.ofList letters) with
  | none => simp [eq_comm]
  | some r => simp

/-- **The first directive counts.** The gauge rule of a help text is the one that the letters of its leftmost directive
name, in upper or lower case. It is the default if they name none, whatever directives stand behind them, and if there
is no directive or no help text. -/
theorem ofHelp_eq_iff (help : String) (default : GaugeRule) :
    (∀ rule, ofHelp (some help) default = rule ↔
      (∃ i letters, FirstDirectiveAt help.toList i letters ∧
        (rule.NamedBy letters ∨ (∀ r : GaugeRule, ¬ r.NamedBy letters) ∧ rule = default)) ∨
      (∀ i letters, ¬ DirectiveAt help.toList i letters) ∧ rule = default) ∧
    ofHelp none default = default := by
  refine ⟨fun rule => ?_, rfl⟩
  rw [ofHelp, Option.bind_some]
  cases hfound : firstDirective? help.toList with
  | none =>
    have hnone := firstDirective?_eq_none_iff.mp hfound
    constructor
    · intro h
      exact .inr ⟨hnone, h.symm⟩
    · rintro (⟨i, letters, hi, -⟩ | ⟨-, h⟩)
      · exact absurd hi.directive (hnone i letters)
      · exact h.symm
  | some letters =>
    obtain ⟨i, hi⟩ := firstDirective?_eq_some_iff.mp hfound
    dsimp only
    rw [getD_ofName?_eq_iff]
    constructor
    · intro h
      exact .inl ⟨i, letters, hi, h⟩
    · rintro (⟨j, other, hj, h⟩ | ⟨hnone, -⟩)
      · rwa [hi.letters_eq hj]
      · exact absurd hi.directive (hnone i letters)

/-- A directive that breaks off is no directive, and another one may start inside it. -/
example : ofHelp (some "<gauge:agg:<gauge:agg:Max> <gauge:agg:min>") .sum = .max := by decide

end GaugeRule
end MetricGateway
