import MetricGateway.Aggregation

/-!
# Combining in any order

The metrics of a series can be combined two at a time in any order and with any bracketing (`Grouping`). What every
single metric has and combining adds up, the result of a grouping has (`Grouping.exists_combined`).

Counts add up to their `Count.total`: the exact sum, or the largest count if the sum exceeds it. The total of two lists
is the sum of their totals (`Count.total_append`), so a sum that was cut short on the way does not show in the end.
-/

namespace MetricGateway

/-! ## Totals -/

namespace Count

/-- The exact sum of counts. -/
def exactSum (cs : List Count) : Nat := cs.foldr (fun c n => c.toNat + n) 0

/-- The sum of counts, or the largest count if the sum exceeds it. -/
def total (cs : List Count) : Count := UInt64.ofNat (min (exactSum cs) largest)

theorem toNat_le_largest (c : Count) : c.toNat ≤ largest := Nat.le_sub_one_of_lt c.toNat_lt

theorem toNat_total (cs : List Count) : (total cs).toNat = min (exactSum cs) largest := by
  rw [total, UInt64.toNat_ofNat_of_lt' (by simp only [largest, UInt64.size]; omega)]

theorem toNat_add_of_lt {m n : Count} (h : m.toNat + n.toNat < UInt64.size) : (add m n).toNat = m.toNat + n.toNat := by
  rw [toNat_add, largest]
  omega

theorem exactSum_append (cs ds : List Count) : exactSum (cs ++ ds) = exactSum cs + exactSum ds := by
  induction cs with
  | nil => exact (Nat.zero_add _).symm
  | cons c cs ih =>
    show c.toNat + exactSum (cs ++ ds) = c.toNat + exactSum cs + exactSum ds
    rw [ih, Nat.add_assoc]

theorem exactSum_eq_length {cs : List Count} (h : ∀ c ∈ cs, c = 1) : exactSum cs = cs.length := by
  induction cs with
  | nil => rfl
  | cons c cs ih =>
    obtain ⟨rfl, hcs⟩ := List.forall_mem_cons.mp h
    show 1 + exactSum cs = cs.length + 1
    rw [ih hcs, Nat.add_comm]

@[simp] theorem total_singleton (c : Count) : total [c] = c := by
  have hle := toNat_le_largest c
  apply UInt64.toNat_inj.mp
  rw [toNat_total]
  show min (c.toNat + 0) largest = c.toNat
  omega

theorem total_append (cs ds : List Count) : total (cs ++ ds) = add (total cs) (total ds) := by
  apply UInt64.toNat_inj.mp
  rw [toNat_add, toNat_total, toNat_total, toNat_total, exactSum_append]
  omega

theorem total_perm {cs ds : List Count} (h : cs.Perm ds) : total cs = total ds := by
  have hsum : exactSum cs = exactSum ds := h.foldr_eq' (fun c _ d _ n => by omega) 0
  rw [total, total, hsum]

end Count

/-! ## Groupings -/

/-- A bracketing of a list: a single member, or two bracketed parts. -/
inductive Grouping (α : Type)
  | one (x : α)
  | pair (l r : Grouping α)

namespace Grouping

/-- The members from left to right. -/
def members {α : Type} : Grouping α → List α
  | one x => [x]
  | pair l r => l.members ++ r.members

theorem members_ne_nil {α : Type} (g : Grouping α) : g.members ≠ [] := by
  induction g with
  | one x => exact List.cons_ne_nil x []
  | pair l r ihl _ => exact List.append_ne_nil_of_left_ne_nil ihl r.members

variable {ν : Type} [Add ν] [Mul ν] [Div ν] [NatCast ν] [LE ν] [DecidableLE ν] [Ord ν]

/-- What combining the metrics of a grouping gives, part by part. -/
def combined (policy : AggregationPolicy) : Grouping (Metric ν) → Option (Metric ν)
  | one m => some m
  | pair l r => (l.combined policy).bind fun a => (r.combined policy).bind fun b => a.combine policy b

/-- What single metrics have and combining adds up, the result of a grouping has. -/
theorem exists_combined {policy : AggregationPolicy} {R : List (Metric ν) → Metric ν → Prop} {g : Grouping (Metric ν)}
    (hone : ∀ m ∈ g.members, R [m] m)
    (hpair : ∀ {ms ns a b}, R ms a → R ns b → ∃ c, a.combine policy b = some c ∧ R (ms ++ ns) c) :
    ∃ m, g.combined policy = some m ∧ R g.members m := by
  induction g with
  | one m => exact ⟨m, rfl, hone m (List.mem_singleton_self m)⟩
  | pair l r ihl ihr =>
    obtain ⟨a, hl, ha⟩ := ihl fun m hm => hone m (List.mem_append_left _ hm)
    obtain ⟨b, hr, hb⟩ := ihr fun m hm => hone m (List.mem_append_right _ hm)
    obtain ⟨c, hc, hR⟩ := hpair ha hb
    refine ⟨c, ?_, hR⟩
    rw [combined, hl, Option.bind_some, hr, Option.bind_some, hc]

end Grouping
end MetricGateway
