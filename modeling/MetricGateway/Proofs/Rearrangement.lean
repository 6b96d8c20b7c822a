import MetricGateway.Proofs.Sorted.Ascending

/-!
# Rearranged lists

A list is rearranged by a key if it is permuted so that elements with one key keep their order (`Rearranged`).

- Whatever element a list starts with, it can be brought to the front of a rearranged list past elements with other keys
  (`exists_append_of_cons`), so a rearranged list is a permutation (`perm`).
- Steps that commute for different keys lead to the same end in both orders (`foldl_eq`), or to ends that are related if
  they commute up to a relation that every step keeps (`foldl_rel`).
- Stable sorting by the key undoes a rearrangement (`sortBy_eq`).
-/

namespace MetricGateway

variable {α β κ : Type} {key : α → κ}

section Rel

variable {R : β → β → Prop} {step : β → α → β} (hrefl : ∀ b, R b b) (htrans : ∀ {a b c}, R a b → R b c → R a c)
  (hstep : ∀ {b c} x, R b c → R (step b x) (step c x))

include hstep in
/-- What every step keeps, all of them keep. -/
theorem foldl_rel_foldl (xs : List α) {b c : β} (h : R b c) : R (xs.foldl step b) (xs.foldl step c) := by
  induction xs generalizing b c with
  | nil => exact h
  | cons x xs ih => exact ih (hstep x h)

include hrefl htrans hstep in
/-- A step can be taken in front of steps that it commutes with, as far as the relation tells. -/
theorem foldl_rel_append_cons (hcomm : ∀ b x y, key x ≠ key y → R (step (step b x) y) (step (step b y) x)) {x : α}
    {as : List α} (has : ∀ a ∈ as, key a ≠ key x) (bs : List α) (b : β) :
    R ((x :: (as ++ bs)).foldl step b) ((as ++ x :: bs).foldl step b) := by
  induction as generalizing b with
  | nil => exact hrefl _
  | cons a as ih =>
    obtain ⟨ha, has⟩ := List.forall_mem_cons.mp has
    exact htrans (foldl_rel_foldl hstep (as ++ bs) (hcomm b x a (Ne.symm ha))) (ih has (step b a))

end Rel

variable [DecidableEq κ]

/-- The second list is a permutation of the first one in which elements with the same key keep their order: for every
key, both lists have the same elements with this key in the same order. -/
def Rearranged (key : α → κ) (xs ys : List α) : Prop := ∀ k, xs.filter (key · = k) = ys.filter (key · = k)

instance [DecidableEq α] (xs ys : List α) : Decidable (Rearranged key xs ys) :=
  decidable_of_iff (∀ k ∈ (xs ++ ys).map key, xs.filter (key · = k) = ys.filter (key · = k)) <| by
    refine ⟨fun h k => ?_, fun h k _ => h k⟩
    by_cases hk : k ∈ (xs ++ ys).map key
    · exact h k hk
    · have hnone : ∀ z ∈ xs ++ ys, ¬ decide (key z = k) = true := fun z hz he =>
        hk (List.mem_map.mpr ⟨z, hz, of_decide_eq_true he⟩)
      obtain ⟨hxs, hys⟩ := List.forall_mem_append.mp hnone
      rw [List.filter_eq_nil_iff.mpr hxs, List.filter_eq_nil_iff.mpr hys]

namespace Rearranged

variable {xs ys zs : List α}

theorem refl (xs : List α) : Rearranged key xs xs := fun _ => rfl

theorem trans (h : Rearranged key xs ys) (h' : Rearranged key ys zs) : Rearranged key xs zs := fun k =>
  (h k).trans (h' k)

/-- The first element stands in the rearranged list behind elements with other keys only. -/
theorem exists_append_of_cons {x : α} (h : Rearranged key (x :: xs) ys) :
    ∃ as bs, ys = as ++ x :: bs ∧ (∀ a ∈ as, key a ≠ key x) ∧ Rearranged key xs (as ++ bs) := by
  have hx := h (key x)
  rw [List.filter_cons_of_pos (by simp)] at hx
  obtain ⟨as, bs, rfl, has, -, hbs⟩ := List.filter_eq_cons_iff.mp hx.symm
  have has : ∀ a ∈ as, key a ≠ key x := fun a ha => by simpa using has a ha
  refine ⟨as, bs, rfl, has, fun k => ?_⟩
  have hk := h k
  rw [List.filter_append] at hk ⊢
  by_cases hkx : key x = k
  · have hnone : as.filter (key · = k) = [] :=
      List.filter_eq_nil_iff.mpr fun a ha => by simpa [← hkx] using has a ha
    rw [hnone, ← hkx, hbs]
    rfl
  · rwa [List.filter_cons_of_neg (by simpa using hkx), List.filter_cons_of_neg (by simpa using hkx)] at hk

theorem eq_nil (h : Rearranged key [] ys) : ys = [] := by
  refine List.eq_nil_iff_forall_not_mem.mpr fun y hy => ?_
  have hmem : y ∈ ys.filter (key · = key y) := List.mem_filter.mpr ⟨hy, by simp⟩
  rw [← h (key y)] at hmem
  cases hmem

theorem perm (h : Rearranged key xs ys) : xs.Perm ys := by
  induction xs generalizing ys with
  | nil => rw [h.eq_nil]
  | cons x xs ih =>
    obtain ⟨as, bs, rfl, -, hrest⟩ := h.exists_append_of_cons
    exact ((ih hrest).cons x).trans List.perm_middle.symm

/-- Lists without a repeated key are rearranged by every permutation. -/
theorem of_perm (h : xs.Perm ys) (hxs : (xs.map key).Nodup) : Rearranged key xs ys := by
  intro k
  have hne : xs.Pairwise fun a b => key a ≠ key b := List.pairwise_map.mp hxs
  have hne' : ys.Pairwise fun a b => key a ≠ key b := h.pairwise hne fun hab => hab.symm
  refine List.Perm.eq_of_pairwise (fun a b ha hb hab _ => ?_) (hne.filter _) (hne'.filter _) (h.filter _)
  have hka : key a = k := by simpa using (List.mem_filter.mp ha).2
  have hkb : key b = k := by simpa using (List.mem_filter.mp hb).2
  exact absurd (hka.trans hkb.symm) hab

theorem append {xs' ys' : List α} (h : Rearranged key xs ys) (h' : Rearranged key xs' ys') :
    Rearranged key (xs ++ xs') (ys ++ ys') := fun k => by
  rw [List.filter_append, List.filter_append, h k, h' k]

/-- Two elements with different keys at the end of a list change places. -/
theorem swap {x y : α} (h : key x ≠ key y) (zs : List α) : Rearranged key (zs ++ [x] ++ [y]) (zs ++ [y] ++ [x]) := by
  rw [List.append_assoc, List.append_assoc]
  exact (refl zs).append (of_perm (.swap y x []) (by simpa using h))

/-! ## Steps in another order -/

/-- Steps that commute for different keys, as far as a relation tells that they keep, lead to related ends in a
rearranged order. -/
theorem foldl_rel {R : β → β → Prop} {step : β → α → β} (hrefl : ∀ b, R b b)
    (htrans : ∀ {a b c}, R a b → R b c → R a c) (hstep : ∀ {b c} x, R b c → R (step b x) (step c x))
    (hcomm : ∀ b x y, key x ≠ key y → R (step (step b x) y) (step (step b y) x)) (h : Rearranged key xs ys) (b : β) :
    R (xs.foldl step b) (ys.foldl step b) := by
  induction xs generalizing ys b with
  | nil =>
    rw [h.eq_nil]
    exact hrefl b
  | cons x xs ih =>
    obtain ⟨as, bs, rfl, has, hrest⟩ := h.exists_append_of_cons
    exact htrans (ih hrest (step b x)) (foldl_rel_append_cons hrefl htrans hstep hcomm has bs b)

/-- Steps that commute for different keys lead to the same end in a rearranged order. -/
theorem foldl_eq {step : β → α → β} (hcomm : ∀ b x y, key x ≠ key y → step (step b x) y = step (step b y) x)
    (h : Rearranged key xs ys) (b : β) : xs.foldl step b = ys.foldl step b :=
  h.foldl_rel (fun _ => rfl) Eq.trans (fun x h => congrArg (step · x) h) hcomm b

/-- What is read from rearranged elements is rearranged by the key of what was read. -/
theorem filterMap {ι : Type} {f : ι → Option α} {xs ys : List ι} (h : Rearranged (fun i => (f i).map key) xs ys) :
    Rearranged key (xs.filterMap f) (ys.filterMap f) := by
  have hfilter : ∀ (zs : List ι) k, (zs.filterMap f).filter (key · = k) =
      (zs.filter fun i => (f i).map key = some k).filterMap f := by
    intro zs k
    rw [List.filter_filterMap, List.filterMap_filter]
    congr 1
    funext i
    cases f i with
    | none => rfl
    | some a => by_cases ha : key a = k <;> simp [ha]
  intro k
  rw [hfilter, hfilter, h (some k)]

theorem reverse (h : Rearranged key xs ys) : Rearranged key xs.reverse ys.reverse := fun k => by
  rw [List.filter_reverse, List.filter_reverse, h k]

/-- Stable sorting by the key undoes a rearrangement. -/
theorem sortBy_eq [Ord κ] [Std.TransOrd κ] [Std.LawfulEqOrd κ] (h : Rearranged key xs ys) :
    Sorted.sortBy (compareOn key) xs = Sorted.sortBy (compareOn key) ys := by
  have hcomm : ∀ (zs : List α) x y, key x ≠ key y →
      Sorted.insertBy (compareOn key) y (Sorted.insertBy (compareOn key) x zs) =
        Sorted.insertBy (compareOn key) x (Sorted.insertBy (compareOn key) y zs) := by
    intro zs x y hne
    have hcmp : compareOn key y x ≠ .eq := fun heq => hne (Std.LawfulEqOrd.eq_of_compare heq).symm
    exact Sorted.insertBy_comm hcmp zs
  rw [Sorted.sortBy, Sorted.sortBy, List.foldr_eq_foldl_reverse, List.foldr_eq_foldl_reverse]
  exact foldl_eq hcomm h.reverse []

end Rearranged
end MetricGateway
