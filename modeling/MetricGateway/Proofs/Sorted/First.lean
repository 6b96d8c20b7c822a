import MetricGateway.Proofs.Sorted.Ascending

/-!
# The first element of a stable sort

Sorting and dropping elements can change places (`filter_sortBy`), so an element that a search of the sorted list does
not stop at has no influence on it. What the search finds is the smallest element that passes the test, and of several
smallest ones the first in the unsorted list (`find?_sortBy_eq_some_iff`).
-/

namespace MetricGateway.Sorted

variable {α : Type} {cmp : α → α → Ordering} {p : α → Bool} {xs : List α}

/-- An element that is not greater than any other one is inserted in front. -/
theorem insertBy_eq_cons {x : α} {ys : List α} (h : ∀ y ∈ ys, (cmp x y).isLE) : insertBy cmp x ys = x :: ys := by
  cases ys with
  | nil => rfl
  | cons y ys => rw [insertBy, if_pos (h y List.mem_cons_self)]

section Dropping

variable [Std.TransCmp cmp]

theorem filter_insertBy {x : α} {ys : List α} (h : ys.Pairwise fun a b => (cmp a b).isLE) :
    (insertBy cmp x ys).filter p = if p x then insertBy cmp x (ys.filter p) else ys.filter p := by
  induction h with
  | nil => cases hx : p x <;> simp [insertBy, hx]
  | @cons y ys hy hys ih =>
    rw [insertBy]
    split
    next hxy =>
      have hle : ∀ z ∈ (y :: ys).filter p, (cmp x z).isLE := by
        intro z hz
        rcases List.mem_cons.mp (List.mem_filter.mp hz).1 with rfl | hz
        · exact hxy
        · exact Std.TransCmp.isLE_trans hxy (hy z hz)
      rw [insertBy_eq_cons hle, List.filter_cons]
    next hxy =>
      rw [List.filter_cons, List.filter_cons, ih]
      cases p x <;> cases p y <;> simp [insertBy, hxy]

theorem filter_sortBy (p : α → Bool) (xs : List α) : (sortBy cmp xs).filter p = sortBy cmp (xs.filter p) := by
  induction xs with
  | nil => rfl
  | cons x xs ih =>
    show (insertBy cmp x (sortBy cmp xs)).filter p = _
    rw [filter_insertBy (pairwise_sortBy xs), ih, List.filter_cons]
    split <;> rfl

end Dropping

/-! ## Searching -/

/-- The element at a place is the first of the smallest ones that pass a test. -/
structure IsFirst (cmp : α → α → Ordering) (p : α → Bool) (xs : List α) (i : Nat) (x : α) : Prop where
  here : xs[i]? = some x
  passes : p x = true
  first : ∀ j y, xs[j]? = some y → p y = true → cmp x y = .lt ∨ cmp x y = .eq ∧ i ≤ j

theorem IsFirst.unique [Std.OrientedCmp cmp] {i j : Nat} {x y : α} (hx : IsFirst cmp p xs i x)
    (hy : IsFirst cmp p xs j y) : x = y := by
  have hswap : cmp y x = (cmp x y).swap := Std.OrientedCmp.eq_swap
  have hxy := hx.first j y hy.here hy.passes
  have hyx := hy.first i x hx.here hx.passes
  rw [hswap] at hyx
  have hij : i = j := by
    rcases hxy with hxy | ⟨hxy, hij⟩ <;> rw [hxy] at hyx
    · simp at hyx
    · have hji : j ≤ i := by simpa using hyx
      omega
  exact Option.some.inj (hx.here.symm.trans (hij ▸ hy.here))

theorem IsFirst.succ {i : Nat} {x z : α} (h : IsFirst cmp p xs i x) (hz : p z = true → cmp x z = .lt) :
    IsFirst cmp p (z :: xs) (i + 1) x := by
  refine ⟨h.here, h.passes, fun j y hj hy => ?_⟩
  cases j with
  | zero =>
    cases hj
    exact .inl (hz hy)
  | succ j => exact (h.first j y hj hy).imp_right (And.imp_right Nat.succ_le_succ)

variable [Std.TransCmp cmp]

theorem isFirst_zero {x : α} (hx : p x = true) (h : ∀ y ∈ xs, p y = true → (cmp x y).isLE) :
    IsFirst cmp p (x :: xs) 0 x := by
  refine ⟨rfl, hx, fun j y hj hy => ?_⟩
  have hle : (cmp x y).isLE := by
    cases j with
    | zero =>
      cases hj
      exact Std.ReflCmp.isLE_rfl
    | succ j => exact h y (List.mem_of_getElem? hj) hy
  exact (Ordering.isLE_iff_eq_lt_or_eq_eq.mp hle).imp_right fun heq => ⟨heq, Nat.zero_le j⟩

/-- Of an element and the one that is found behind it, a search of the sorted list finds the smaller one. -/
theorem find?_sortBy_cons {x : α} (hx : p x = true) (xs : List α) : (sortBy cmp (x :: xs)).find? p =
    some (match (sortBy cmp xs).find? p with
      | none => x
      | some y => if (cmp x y).isLE then x else y) := by
  rw [← List.head?_filter, ← List.head?_filter, filter_sortBy, filter_sortBy, List.filter_cons_of_pos hx]
  show (insertBy cmp x (sortBy cmp (xs.filter p))).head? = _
  cases sortBy cmp (xs.filter p) with
  | nil => rfl
  | cons y ys =>
    rw [insertBy, List.head?_cons]
    dsimp only
    split <;> rfl

theorem find?_sortBy_cons_of_neg {x : α} (hx : ¬ p x = true) (xs : List α) :
    (sortBy cmp (x :: xs)).find? p = (sortBy cmp xs).find? p := by
  rw [← List.head?_filter, ← List.head?_filter, filter_sortBy, filter_sortBy, List.filter_cons_of_neg hx]

theorem exists_isFirst_of_find? {x : α} (h : (sortBy cmp xs).find? p = some x) : ∃ i, IsFirst cmp p xs i x := by
  induction xs generalizing x with
  | nil => cases h
  | cons z xs ih =>
    by_cases hz : p z = true
    · rw [find?_sortBy_cons hz] at h
      cases hf : (sortBy cmp xs).find? p with
      | none =>
        rw [hf] at h
        cases h
        refine ⟨0, isFirst_zero hz fun y hy hpy => ?_⟩
        exact absurd hpy (List.find?_eq_none.mp hf y (mem_sortBy.mpr hy))
      | some y =>
        obtain ⟨i, hi⟩ := ih hf
        rw [hf] at h
        dsimp only at h
        split at h
        next hzy =>
          cases h
          refine ⟨0, isFirst_zero hz fun w hw hpw => ?_⟩
          obtain ⟨j, hj⟩ := List.mem_iff_getElem?.mp hw
          have hyw : (cmp y w).isLE :=
            Ordering.isLE_iff_eq_lt_or_eq_eq.mpr ((hi.first j w hj hpw).imp_right And.left)
          exact Std.TransCmp.isLE_trans hzy hyw
        next hzy =>
          cases h
          exact ⟨i + 1, hi.succ fun _ => Std.OrientedCmp.lt_of_not_isLE hzy⟩
    · rw [find?_sortBy_cons_of_neg hz] at h
      obtain ⟨i, hi⟩ := ih h
      exact ⟨i + 1, hi.succ fun hpz => absurd hpz hz⟩

/-- A search of a sorted list finds the first of the smallest elements that pass the test. -/
theorem find?_sortBy_eq_some_iff {x : α} : (sortBy cmp xs).find? p = some x ↔ ∃ i, IsFirst cmp p xs i x := by
  refine ⟨exists_isFirst_of_find?, fun ⟨i, hi⟩ => ?_⟩
  have hmem : x ∈ sortBy cmp xs := mem_sortBy.mpr (List.mem_of_getElem? hi.here)
  obtain ⟨y, hy⟩ := Option.isSome_iff_exists.mp (List.find?_isSome.mpr ⟨x, hmem, hi.passes⟩)
  obtain ⟨j, hj⟩ := exists_isFirst_of_find? hy
  rw [hy, hj.unique hi]

end MetricGateway.Sorted
