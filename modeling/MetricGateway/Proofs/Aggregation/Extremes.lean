import Mathlib.Data.List.DropRight
import MetricGateway.Aggregation
import MetricGateway.Binary64.Basic

/-!
# What the rules of extremes keep

The rules `max` and `min` keep the stored value if the one that comes in does not surpass it, and take the latter
otherwise. A NaN is not comparable: it replaces what is stored, and whatever comes next replaces the NaN. So of values
that come one after the other the extreme of those behind the last NaN is kept (`Kept`, `kept_concat`). No value at all
surpasses it exactly if the last one is a NaN or each value is reached by one behind the last NaN
(`Kept.forall_not_surpasses_iff`).
-/

namespace MetricGateway

/-- The values behind the last NaN. -/
def behindNaN (vs : List Binary64) : List Binary64 := vs.rtakeWhile fun v => !v.isNaN

theorem behindNaN_concat (vs : List Binary64) (v : Binary64) :
    behindNaN (vs ++ [v]) = if v.isNaN then [] else behindNaN vs ++ [v] := by
  rw [behindNaN, List.rtakeWhile_concat]
  cases v.isNaN <;> rfl

theorem isNaN_of_mem_behindNaN {vs : List Binary64} {v : Binary64} (h : v ∈ behindNaN vs) : v.isNaN = false := by
  simpa using List.mem_rtakeWhile_imp h

theorem behindNaN_eq_self {vs : List Binary64} (h : ∀ v ∈ vs, v.isNaN = false) : behindNaN vs = vs :=
  List.rtakeWhile_eq_self_iff.mpr fun v hv => by simp [h v hv]

/-- Nothing is behind the last NaN only if it comes last. -/
theorem isNaN_of_behindNaN_eq_nil {vs : List Binary64} {v : Binary64} (h : behindNaN vs = [])
    (hlast : vs.getLast? = some v) : v.isNaN = true := by
  obtain ⟨front, rfl⟩ := List.getLast?_eq_some_iff.mp hlast
  rw [behindNaN_concat] at h
  by_contra hv
  simp [hv] at h

namespace GaugeRule

/-- The rule keeps an extreme. -/
def IsExtreme (rule : GaugeRule) : Prop := rule = .max ∨ rule = .min

/-- The value `v` is strictly beyond `w` in the direction of the rule. -/
def Surpasses (rule : GaugeRule) (v w : Binary64) : Prop :=
  match rule with
  | .max => w < v
  | .min => v < w
  | _ => False

/-- What is kept of values that come one after the other: a NaN that comes last, or else one of the values behind the
last NaN that none of these surpasses. -/
def Kept (rule : GaugeRule) (vs : List Binary64) (w : Binary64) : Prop :=
  if behindNaN vs = [] then vs.getLast? = some w
  else w ∈ behindNaN vs ∧ ∀ v ∈ behindNaN vs, ¬ rule.Surpasses v w

/-- The place of a value on the way to the extreme. -/
def rank (rule : GaugeRule) (v : Binary64) : Int := if rule = .min then -v.numericKey else v.numericKey

section Extreme

variable {rule : GaugeRule} (hrule : rule.IsExtreme)
include hrule

theorem surpasses_iff (v w : Binary64) :
    rule.Surpasses v w ↔ v.isNaN = false ∧ w.isNaN = false ∧ rule.rank w < rule.rank v := by
  rcases hrule with rfl | rfl
  · exact and_left_comm
  · show _ ↔ _ ∧ _ ∧ -w.numericKey < -v.numericKey
    rw [Int.neg_lt_neg_iff]
    rfl

/-- The stored value stays if both are numbers and the incoming one does not surpass it. -/
theorem apply_eq (a b : Binary64) (m n : Count) : rule.apply a m b n =
    if a.isNaN = false ∧ b.isNaN = false ∧ rule.rank b ≤ rule.rank a then a else b := by
  rcases hrule with rfl | rfl
  · exact if_congr and_left_comm rfl rfl
  · refine if_congr ?_ rfl rfl
    show _ ↔ _ ∧ _ ∧ -b.numericKey ≤ -a.numericKey
    rw [Int.neg_le_neg_iff]
    rfl

theorem not_surpasses_self (v : Binary64) : ¬ rule.Surpasses v v := by
  rw [surpasses_iff hrule]
  omega

/-- A value that does not surpass a number does not surpass what this number does not surpass. -/
theorem not_surpasses_trans {u v w : Binary64} (hv : v.isNaN = false) (huv : ¬ rule.Surpasses u v)
    (hvw : ¬ rule.Surpasses v w) : ¬ rule.Surpasses u w := by
  rw [surpasses_iff hrule] at huv hvw ⊢
  rintro ⟨hu, hw, hlt⟩
  have hle : ¬ rule.rank v < rule.rank u := fun h => huv ⟨hu, hv, h⟩
  have hle' : ¬ rule.rank w < rule.rank v := fun h => hvw ⟨hv, hw, h⟩
  omega

theorem kept_singleton (v : Binary64) : rule.Kept [v] v := by
  have hbehind : behindNaN [v] = if v.isNaN then [] else [v] := behindNaN_concat [] v
  rw [Kept, hbehind]
  cases hv : v.isNaN with
  | true => exact rfl
  | false =>
    refine (if_neg (by simp)).mpr ⟨List.mem_cons_self, fun u (hu : u ∈ [v]) => ?_⟩
    rw [List.mem_singleton.mp hu]
    exact not_surpasses_self hrule v

/-- One more value is taken if it is a NaN, follows a NaN or surpasses what was kept. -/
theorem kept_concat {vs : List Binary64} {w : Binary64} (h : rule.Kept vs w) (v : Binary64) (m n : Count) :
    rule.Kept (vs ++ [v]) (rule.apply w m v n) := by
  rw [apply_eq hrule, Kept, behindNaN_concat]
  cases hv : v.isNaN with
  | true => simp
  | false =>
    rw [if_neg Bool.false_ne_true, if_neg (by simp)]
    unfold Kept at h
    split at h
    next hnil =>
      have hw : w.isNaN = true := isNaN_of_behindNaN_eq_nil hnil h
      simp [hnil, hw, surpasses_iff hrule]
    next hbehind =>
      obtain ⟨hmem, hreached⟩ := h
      have hw : w.isNaN = false := isNaN_of_mem_behindNaN hmem
      by_cases hle : rule.rank v ≤ rule.rank w
      · rw [if_pos ⟨hw, rfl, hle⟩]
        refine ⟨List.mem_append_left _ hmem, List.forall_mem_append.mpr ⟨hreached, fun u hu => ?_⟩⟩
        rw [List.mem_singleton.mp hu, surpasses_iff hrule]
        omega
      · rw [if_neg fun h => hle h.2.2]
        refine ⟨List.mem_append_right _ List.mem_cons_self, List.forall_mem_append.mpr ⟨fun u hu => ?_, fun u hu => ?_⟩⟩
        · have hpassed : ¬ rule.Surpasses w v := by
            rw [surpasses_iff hrule]
            omega
          exact not_surpasses_trans hrule hw (hreached u hu) hpassed
        · rw [List.mem_singleton.mp hu]
          exact not_surpasses_self hrule v

/-- No value surpasses what is kept exactly if the last one is a NaN or each is reached by one behind the last NaN. -/
theorem Kept.forall_not_surpasses_iff {vs : List Binary64} {w : Binary64} (h : rule.Kept vs w) :
    (∀ v ∈ vs, ¬ rule.Surpasses v w) ↔
      behindNaN vs = [] ∨ ∀ v ∈ vs, ∃ u ∈ behindNaN vs, ¬ rule.Surpasses v u := by
  unfold Kept at h
  split at h
  next hnil =>
    have hw : w.isNaN = true := isNaN_of_behindNaN_eq_nil hnil h
    simp [hnil, hw, surpasses_iff hrule]
  next hne =>
    obtain ⟨hmem, hreached⟩ := h
    rw [or_iff_right hne]
    constructor
    · exact fun hall v hv => ⟨w, hmem, hall v hv⟩
    · intro hall v hv
      obtain ⟨u, hu, hnot⟩ := hall v hv
      exact not_surpasses_trans hrule (isNaN_of_mem_behindNaN hu) hnot (hreached u hu)

end Extreme
end GaugeRule
end MetricGateway
