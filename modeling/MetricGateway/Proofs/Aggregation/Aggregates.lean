import Mathlib.Algebra.BigOperators.Group.List.Basic
import Mathlib.Algebra.Order.Field.Rat
import Mathlib.Order.Bounds.Basic
import Mathlib.Tactic.FieldSimp
import Mathlib.Tactic.Linarith
import MetricGateway.Proofs.Aggregation.Grouping

/-!
# What the rules compute

Over exact numbers each rule computes what it is named after: the sum, the greatest or least number, the last or first
one, or the mean in which each number weighs as much as it has samples behind it (`GaugeRule.Aggregates`). One number is
its own aggregate, and the rule takes the aggregates of two lists to that of both (`GaugeRule.Aggregates.append`). As
there is only one (`GaugeRule.Aggregates.unique`), the bracketing does not matter (`combines_to_aggregate`).
-/

namespace MetricGateway

/-! ## Aggregates of numbers -/

/-- A number with the count of the samples behind it. -/
structure Weighted where
  value : ℚ
  weight : Count

namespace Weighted

/-- The number of samples behind all numbers. -/
def totalWeight (xs : List Weighted) : Nat := Count.exactSum (xs.map weight)

/-- The sum of all samples, where those behind a number are taken to be equal to it. -/
def weightedSum (xs : List Weighted) : ℚ := (xs.map fun x => x.value * (x.weight.toNat : ℚ)).sum

theorem totalWeight_append (xs ys : List Weighted) : totalWeight (xs ++ ys) = totalWeight xs + totalWeight ys := by
  rw [totalWeight, List.map_append, Count.exactSum_append, totalWeight, totalWeight]

theorem weightedSum_append (xs ys : List Weighted) : weightedSum (xs ++ ys) = weightedSum xs + weightedSum ys := by
  rw [weightedSum, List.map_append, List.sum_append, weightedSum, weightedSum]

theorem weightedSum_eq_zero {xs : List Weighted} (h : totalWeight xs = 0) : weightedSum xs = 0 := by
  induction xs with
  | nil => rfl
  | cons x xs ih =>
    obtain ⟨hx, hxs⟩ : x.weight.toNat = 0 ∧ totalWeight xs = 0 := Nat.add_eq_zero_iff.mp h
    rw [weightedSum, List.map_cons, List.sum_cons, hx, Nat.cast_zero, mul_zero, zero_add]
    exact ih hxs

end Weighted

open Weighted

/-- The number that the rule is named after, of a list of numbers. Without any samples there is no mean, and the last
number stands for it. -/
def GaugeRule.Aggregates (rule : GaugeRule) (xs : List Weighted) (v : ℚ) : Prop :=
  match rule with
  | .sum => v = (xs.map value).sum
  | .max => IsGreatest {u | u ∈ xs.map value} v
  | .min => IsLeast {u | u ∈ xs.map value} v
  | .last => (xs.map value).getLast? = some v
  | .first => (xs.map value).head? = some v
  | .avg => if totalWeight xs = 0 then (xs.map value).getLast? = some v else v = weightedSum xs / totalWeight xs

namespace GaugeRule.Aggregates

variable {rule : GaugeRule} {xs ys : List Weighted} {v w : ℚ}

theorem unique (hv : rule.Aggregates xs v) (hw : rule.Aggregates xs w) : v = w := by
  cases rule with
  | sum => exact hv.trans hw.symm
  | max => exact IsGreatest.unique hv hw
  | min => exact IsLeast.unique hv hw
  | last | first => exact Option.some.inj (hv.symm.trans hw)
  | avg =>
    simp only [Aggregates] at hv hw
    split at hv
    next hzero =>
      rw [if_pos hzero] at hw
      exact Option.some.inj (hv.symm.trans hw)
    next hne =>
      rw [if_neg hne] at hw
      exact hv.trans hw.symm

/-- A mean times the number of samples is their sum. -/
theorem mul_totalWeight (h : GaugeRule.avg.Aggregates xs v) : v * totalWeight xs = weightedSum xs := by
  simp only [Aggregates] at h
  split at h
  next hzero => rw [hzero, weightedSum_eq_zero hzero, Nat.cast_zero, mul_zero]
  next hne =>
    rw [h]
    exact div_mul_cancel₀ _ (Nat.cast_ne_zero.mpr hne)

/-- A number is its own aggregate. -/
theorem singleton (rule : GaugeRule) (x : Weighted) : rule.Aggregates [x] x.value := by
  cases rule with
  | sum => exact List.sum_singleton.symm
  | max => simp [Aggregates]
  | min => simp [Aggregates]
  | last | first => rfl
  | avg =>
    have htotal : totalWeight [x] = x.weight.toNat := Nat.add_zero _
    have hsum : weightedSum [x] = x.value * x.weight.toNat := List.sum_singleton
    simp only [Aggregates]
    split
    next => rfl
    next hne =>
      rw [hsum, htotal]
      rw [htotal] at hne
      exact (mul_div_cancel_right₀ _ (Nat.cast_ne_zero.mpr hne)).symm

/-- The mean of two means, weighted by the samples behind them, is the mean of both lists. -/
theorem append_mean (hv : GaugeRule.avg.Aggregates xs v) (hw : GaugeRule.avg.Aggregates ys w) {m n : Count}
    (hm : m.toNat = totalWeight xs) (hn : n.toNat = totalWeight ys)
    (hfits : totalWeight xs + totalWeight ys < UInt64.size) :
    GaugeRule.avg.Aggregates (xs ++ ys) (weightedMean v m w n) := by
  have htotal : (Count.add m n).toNat = totalWeight (xs ++ ys) := by
    rw [← hm, ← hn] at hfits
    rw [Count.toNat_add_of_lt hfits, hm, hn, totalWeight_append]
  have hzero : Count.add m n = 0 ↔ totalWeight (xs ++ ys) = 0 := by
    rw [← htotal, ← UInt64.toNat_inj]
    rfl
  simp only [Aggregates, weightedMean, hzero]
  split
  next hnone =>
    -- without any samples the last number of the second list counts
    have hnone' : totalWeight ys = 0 := by
      rw [totalWeight_append] at hnone
      omega
    simp only [Aggregates, if_pos hnone'] at hw
    rw [List.map_append, List.getLast?_append, hw, Option.some_or]
  next => rw [hm, hn, htotal, hv.mul_totalWeight, hw.mul_totalWeight, weightedSum_append]

/-- Where each number has one sample, the mean is their arithmetic mean. -/
theorem eq_mean_of_fresh (h : GaugeRule.avg.Aggregates xs v) (hne : xs ≠ []) (hfresh : ∀ x ∈ xs, x.weight = 1) :
    v = (xs.map value).sum / xs.length := by
  have htotal : totalWeight xs = xs.length := by
    rw [totalWeight, Count.exactSum_eq_length (List.forall_mem_map.mpr hfresh), List.length_map]
  have hsum : weightedSum xs = (xs.map value).sum := by
    refine congrArg List.sum (List.map_congr_left fun x hx => ?_)
    rw [hfresh x hx]
    exact mul_one x.value
  simp only [Aggregates, htotal, hsum, if_neg (mt List.length_eq_zero_iff.mp hne)] at h
  exact h

theorem setOf_mem_map_append : {u | u ∈ (xs ++ ys).map value} = {u | u ∈ xs.map value} ∪ {u | u ∈ ys.map value} := by
  ext u
  rw [List.map_append]
  exact List.mem_append

/-- **A rule takes the aggregates of two lists to that of both.** -/
theorem append (hv : rule.Aggregates xs v) (hw : rule.Aggregates ys w) {m n : Count}
    (hm : m.toNat = totalWeight xs) (hn : n.toNat = totalWeight ys)
    (hfits : totalWeight xs + totalWeight ys < UInt64.size) : rule.Aggregates (xs ++ ys) (rule.apply v m w n) := by
  cases rule with
  | sum =>
    show v + w = _
    rw [List.map_append, List.sum_append, ← hv, ← hw]
  | max =>
    have hmax : GaugeRule.max.apply v m w n = v ⊔ w := by
      simp only [apply, max_def']
    rw [hmax, Aggregates, setOf_mem_map_append]
    exact IsGreatest.union hv hw
  | min =>
    have hmin : GaugeRule.min.apply v m w n = v ⊓ w := by
      simp only [apply, min_def]
    rw [hmin, Aggregates, setOf_mem_map_append]
    exact IsLeast.union hv hw
  | last =>
    show ((xs ++ ys).map value).getLast? = some w
    rw [List.map_append, List.getLast?_append, hw, Option.some_or]
  | first =>
    show ((xs ++ ys).map value).head? = some v
    rw [List.map_append, List.head?_append, hv, Option.some_or]
  | avg => exact append_mean hv hw hm hn hfits

end GaugeRule.Aggregates

/-! ## Aggregates of metrics -/

/-- The number that a value is, if it is one. -/
def MetricValue.number? {ν : Type} : MetricValue ν → Option ν
  | counter v | gauge v | untyped v => some v
  | histogram _ | summary _ => none

/-- The rule for gauges that goes by the same name. -/
def UntypedRule.gaugeRule : UntypedRule → GaugeRule
  | sum => .sum
  | avg => .avg

/-- The rule for the numbers of a type: counters add up, gauges and untyped metrics follow the policy. -/
def AggregationPolicy.rule? (policy : AggregationPolicy) : MetricType → Option GaugeRule
  | .counter => some .sum
  | .gauge => some policy.gauge
  | .untyped => some policy.untyped.gaugeRule
  | .histogram | .summary => none

theorem UntypedRule.apply_eq (rule : UntypedRule) (v : ℚ) (m : Count) (w : ℚ) (n : Count) :
    rule.apply v m w n = rule.gaugeRule.apply v m w n := by
  cases rule <;> rfl

/-- A number of a type is one value. -/
theorem MetricValue.eq_of_number? {a b : MetricValue ℚ} {x : ℚ} (htype : a.type = b.type) (ha : a.number? = some x)
    (hb : b.number? = some x) : a = b := by
  cases a <;> cases b <;> cases htype <;> cases ha <;> cases hb <;> rfl

/-- The numbers of metrics, each with the samples behind it. -/
def numbersOf (ms : List (Metric ℚ)) : List Weighted :=
  ms.filterMap fun m => m.value.number?.map fun v => ⟨v, m.observations⟩

section Numbers

variable {policy : AggregationPolicy} {type : MetricType} {rule : GaugeRule} (hrule : policy.rule? type = some rule)
include hrule

/-- A value of a type with a rule is a number. -/
theorem exists_number {v : MetricValue ℚ} (hv : v.type = type) : ∃ x, v.number? = some x := by
  subst hv
  cases v with
  | counter x | gauge x | untyped x => exact ⟨x, rfl⟩
  | histogram | summary => cases hrule

/-- Two metrics of such a type are combined by the rule. -/
theorem exists_combine {a b : Metric ℚ} {v w : ℚ} (ha : a.value.type = type) (hb : b.value.type = type)
    (hv : a.value.number? = some v) (hw : b.value.number? = some w) :
    ∃ c, a.combine policy b = some c ∧ c.labels = a.labels ∧ c.value.type = type ∧
      c.value.number? = some (rule.apply v a.observations w b.observations) ∧
      c.observations = Count.add a.observations b.observations := by
  obtain ⟨labels, a, k⟩ := a
  obtain ⟨labels', b, l⟩ := b
  have hsame : a.type = b.type := ha.trans hb.symm
  subst ha
  cases a with
  | counter x | gauge x =>
    cases b <;> cases hsame
    cases hv
    cases hw
    cases hrule
    exact ⟨_, rfl, rfl, rfl, rfl, rfl⟩
  | untyped x =>
    cases b <;> cases hsame
    cases hv
    cases hw
    cases hrule
    refine ⟨_, rfl, rfl, rfl, ?_, rfl⟩
    rw [← UntypedRule.apply_eq]
    rfl
  | histogram | summary => cases hrule

/-- Every metric of such a type gives a number. -/
theorem map_weight_numbersOf {ms : List (Metric ℚ)} (hms : ∀ m ∈ ms, m.value.type = type) :
    (numbersOf ms).map weight = ms.map Metric.observations := by
  induction ms with
  | nil => rfl
  | cons m ms ih =>
    obtain ⟨hm, hms⟩ := List.forall_mem_cons.mp hms
    obtain ⟨x, hx⟩ := exists_number hrule hm
    have hcons : numbersOf (m :: ms) = ⟨x, m.observations⟩ :: numbersOf ms :=
      List.filterMap_cons_some (by rw [hx]; rfl)
    rw [hcons, List.map_cons, List.map_cons, ih hms]

/-- Every grouping of metrics of one series is combined to a metric of this series. If the observations fit into a
count, it has all of them and the aggregate of the numbers. -/
theorem exists_aggregate {labels : LabelSet} {g : Grouping (Metric ℚ)}
    (hseries : ∀ m ∈ g.members, m.labels = labels ∧ m.value.type = type) :
    ∃ m, g.combined policy = some m ∧ m.labels = labels ∧ m.value.type = type ∧
      (totalWeight (numbersOf g.members) < UInt64.size →
        m.observations.toNat = totalWeight (numbersOf g.members) ∧
          ∃ v, m.value.number? = some v ∧ rule.Aggregates (numbersOf g.members) v) := by
  refine Grouping.exists_combined (R := fun ms m => m.labels = labels ∧ m.value.type = type ∧
    (totalWeight (numbersOf ms) < UInt64.size → m.observations.toNat = totalWeight (numbersOf ms) ∧
      ∃ v, m.value.number? = some v ∧ rule.Aggregates (numbersOf ms) v)) (fun m hm => ?_) ?_
  · obtain ⟨hlabels, htype⟩ := hseries m hm
    obtain ⟨x, hx⟩ := exists_number hrule htype
    have hone : numbersOf [m] = [⟨x, m.observations⟩] := by simp [numbersOf, hx]
    rw [hone]
    exact ⟨hlabels, htype, fun _ => ⟨rfl, x, hx, GaugeRule.Aggregates.singleton rule ⟨x, m.observations⟩⟩⟩
  · rintro ms ns a b ⟨hla, hta, ha⟩ ⟨hlb, htb, hb⟩
    obtain ⟨v, hv⟩ := exists_number hrule hta
    obtain ⟨w, hw⟩ := exists_number hrule htb
    obtain ⟨c, hc, hlc, htc, hxc, hoc⟩ := exists_combine hrule hta htb hv hw
    refine ⟨c, hc, hlc.trans hla, htc, fun hfits => ?_⟩
    have happend : numbersOf (ms ++ ns) = numbersOf ms ++ numbersOf ns := List.filterMap_append
    rw [happend, totalWeight_append] at hfits ⊢
    obtain ⟨hoa, v', hv', haggr⟩ := ha (by omega)
    obtain ⟨hob, w', hw', haggr'⟩ := hb (by omega)
    cases hv.symm.trans hv'
    cases hw.symm.trans hw'
    refine ⟨?_, _, hxc, haggr.append haggr' hoa hob hfits⟩
    rw [← hoa, ← hob] at hfits
    rw [hoc, Count.toNat_add_of_lt hfits, hoa, hob]

/-- Groupings with the same members are combined to the same metric. -/
theorem combined_eq_of_members_eq {labels : LabelSet} {g g' : Grouping (Metric ℚ)}
    (hseries : ∀ m ∈ g.members, m.labels = labels ∧ m.value.type = type)
    (hfits : totalWeight (numbersOf g.members) < UInt64.size) (hmembers : g'.members = g.members) :
    g'.combined policy = g.combined policy := by
  obtain ⟨m, hm, hlabels, htype, hcombined⟩ := exists_aggregate hrule hseries
  obtain ⟨hobs, v, hv, haggr⟩ := hcombined hfits
  rw [← hmembers] at hseries hfits hobs haggr
  obtain ⟨m', hm', hlabels', htype', hcombined'⟩ := exists_aggregate hrule hseries
  obtain ⟨hobs', v', hv', haggr'⟩ := hcombined' hfits
  -- the parts of a metric are its labels, its value and its observations
  have hpart : m'.labels = m.labels := hlabels'.trans hlabels.symm
  obtain rfl := haggr'.unique haggr
  have hvalue : m'.value = m.value := MetricValue.eq_of_number? (htype'.trans htype.symm) hv' hv
  have hcount : m'.observations = m.observations := UInt64.toNat_inj.mp (hobs'.trans hobs.symm)
  cases m
  cases m'
  cases hpart
  cases hvalue
  cases hcount
  exact hm'.trans hm.symm

end Numbers

/-- **The rules compute what they are named after, in any grouping.** Let the members of a grouping be numbers of one
series whose observations fit into a count together. Combining them over exact numbers gives a metric of this series
with all their observations, and its value is the aggregate of theirs that the rule of their type names; the mean of
metrics with one observation each is their arithmetic mean. Every other bracketing of the same members gives the same
metric, so that combining is associative. -/
theorem combines_to_aggregate {policy : AggregationPolicy} {type : MetricType} {rule : GaugeRule}
    (hrule : policy.rule? type = some rule) {labels : LabelSet} {g : Grouping (Metric ℚ)}
    (hseries : ∀ m ∈ g.members, m.labels = labels ∧ m.value.type = type)
    (hfits : Count.exactSum (g.members.map Metric.observations) < UInt64.size) :
    ∃ m v, g.combined policy = some m ∧ m.labels = labels ∧ m.value.type = type ∧ m.value.number? = some v ∧
      m.observations.toNat = Count.exactSum (g.members.map Metric.observations) ∧
      rule.Aggregates (numbersOf g.members) v ∧
      (rule = .avg → (∀ n ∈ g.members, n.observations = 1) →
        v = ((numbersOf g.members).map value).sum / g.members.length) ∧
      (∀ g' : Grouping (Metric ℚ), g'.members = g.members → g'.combined policy = some m) ∧
      ∀ a b c, g.members = [a, b, c] →
        ((a.combine policy b).bind fun ab => ab.combine policy c) =
          (b.combine policy c).bind fun bc => a.combine policy bc := by
  have hweights := map_weight_numbersOf hrule fun m hm => (hseries m hm).2
  have htotal : totalWeight (numbersOf g.members) = Count.exactSum (g.members.map Metric.observations) :=
    congrArg Count.exactSum hweights
  obtain ⟨m, hm, hlabels, htype, hcombined⟩ := exists_aggregate hrule hseries
  rw [htotal] at hcombined
  obtain ⟨hobs, v, hv, haggr⟩ := hcombined hfits
  have hunique : ∀ g' : Grouping (Metric ℚ), g'.members = g.members → g'.combined policy = some m :=
    fun g' hg' => (combined_eq_of_members_eq hrule hseries (by rwa [htotal]) hg').trans hm
  refine ⟨m, v, hm, hlabels, htype, hv, hobs, haggr, ?_, hunique, ?_⟩
  · rintro rfl hfresh
    have hlength : (numbersOf g.members).length = g.members.length := by
      simpa only [List.length_map] using congrArg List.length hweights
    rw [← hlength]
    refine haggr.eq_mean_of_fresh (List.ne_nil_of_length_pos ?_) fun x hx => ?_
    · rw [hlength]
      exact List.length_pos_of_ne_nil g.members_ne_nil
    · obtain ⟨n, hn, hweight⟩ := List.mem_map.mp (hweights ▸ List.mem_map_of_mem hx)
      rw [← hweight]
      exact hfresh n hn
  · intro a b c habc
    have hleft := hunique (.pair (.pair (.one a) (.one b)) (.one c)) habc.symm
    have hright := hunique (.pair (.one a) (.pair (.one b) (.one c))) habc.symm
    exact hleft.trans hright.symm

/-- A gauge of the series without labels. -/
def depth (v : ℚ) (observations : Count) : Metric ℚ := { labels := .empty, value := .gauge v, observations }

/-- Three depths, of which the last one is a mean of two samples. -/
def depths : Grouping (Metric ℚ) := .pair (.one (depth 10 1)) (.pair (.one (depth 20 1)) (.one (depth 30 2)))

/-- The mean of the four samples is 45/2, in both bracketings. -/
theorem combines_to_aggregate_depths :
    AggregationPolicy.rule? { gauge := .avg } .gauge = some .avg ∧
      (∀ m ∈ depths.members, m.labels = .empty ∧ m.value.type = .gauge) ∧
      Count.exactSum (depths.members.map Metric.observations) < UInt64.size ∧
      ∃ m, depths.combined { gauge := .avg } = some m ∧ m.value.number? = some (45 / 2) ∧ m.observations.toNat = 4 ∧
        Grouping.combined { gauge := .avg }
          (.pair (.pair (.one (depth 10 1)) (.one (depth 20 1))) (.one (depth 30 2))) = some m := by
  have hseries : ∀ m ∈ depths.members, m.labels = .empty ∧ m.value.type = .gauge := by
    intro m hm
    simp only [depths, Grouping.members, List.cons_append, List.nil_append, List.mem_cons, List.not_mem_nil,
      or_false] at hm
    rcases hm with rfl | rfl | rfl <;> exact ⟨rfl, rfl⟩
  have hfits : Count.exactSum (depths.members.map Metric.observations) < UInt64.size := by decide
  have hrule : AggregationPolicy.rule? { gauge := .avg } .gauge = some .avg := rfl
  obtain ⟨m, v, hm, -, -, hv, hobs, haggr, -, hunique, -⟩ := combines_to_aggregate hrule hseries hfits
  have hmean : weightedSum (numbersOf depths.members) / totalWeight (numbersOf depths.members) = 45 / 2 := by
    decide +kernel
  rw [GaugeRule.Aggregates, if_neg (by decide +kernel), hmean] at haggr
  subst haggr
  exact ⟨hrule, hseries, hfits, m, hm, hv, hobs, hunique _ rfl⟩

end MetricGateway
