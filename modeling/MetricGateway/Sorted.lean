/-!
# Sorted lists

`sortBy cmp` sorts a list by a comparison and keeps the order of elements that compare equal. It is the library's sort
(`sortBy_eq_mergeSort`) as a recursion on the list, so that it is evaluated in proofs about given lists as well.

A finite map is kept as a list whose string keys strictly increase (`Increasing`), so that equal maps are equal lists.
`put` enters an element at its place and replaces one with the same key. Both `put` and `List.filter` keep a list
increasing, and looking a key up after `put` gives the new element for its key and the old answer for any other
(`lookup?_put`).

`unionBy cmp both xs ys` walks two lists in the order of a comparison. Elements without a partner in the other list
are kept as they are, and `both` decides what becomes of two elements that compare equal: one element or none.
-/

namespace MetricGateway.Sorted

variable {α : Type}

/-! ## Sorting -/

section Sorting

variable (cmp : α → α → Ordering)

/-- Inserts an element in front of the first one that is not smaller. -/
def insertBy (x : α) : List α → List α
  | [] => [x]
  | y :: ys => if (cmp x y).isLE then x :: y :: ys else y :: insertBy x ys

/-- Sorts a list, keeping the order of elements that compare equal. -/
def sortBy (xs : List α) : List α := xs.foldr (insertBy cmp) []

theorem isLE_total [Std.OrientedCmp cmp] (a b : α) : ((cmp a b).isLE || (cmp b a).isLE) = true := by
  have hswap : cmp b a = (cmp a b).swap := Std.OrientedCmp.eq_swap
  rw [hswap]
  cases cmp a b <;> rfl

variable {cmp}

theorem insertBy_append {x : α} {front : List α} (h : ∀ y ∈ front, (cmp x y).isLE = false) (back : List α) :
    insertBy cmp x (front ++ back) = front ++ insertBy cmp x back := by
  induction front with
  | nil => rfl
  | cons y front ih =>
    obtain ⟨hy, hfront⟩ := List.forall_mem_cons.mp h
    rw [List.cons_append, insertBy, hy, if_neg Bool.false_ne_true, ih hfront, List.cons_append]

variable [Std.TransCmp cmp]

/-- **Inserting one element after the other sorts as the library does.** -/
theorem sortBy_eq_mergeSort (xs : List α) : sortBy cmp xs = xs.mergeSort fun a b => (cmp a b).isLE := by
  induction xs with
  | nil => exact List.mergeSort_nil.symm
  | cons x xs ih =>
    obtain ⟨front, back, hcons, hxs, hfront⟩ :=
      List.mergeSort_cons (fun _ _ _ => Std.TransCmp.isLE_trans) (isLE_total cmp) x xs
    have hsorted := List.pairwise_mergeSort (fun _ _ _ => Std.TransCmp.isLE_trans) (isLE_total cmp) (x :: xs)
    rw [hcons] at hsorted
    -- nothing behind the place of `x` is smaller, so it is inserted there
    have hback : insertBy cmp x back = x :: back := by
      cases back with
      | nil => rfl
      | cons y back =>
        have hxy := List.rel_of_pairwise_cons (List.pairwise_append.mp hsorted).2.1 List.mem_cons_self
        rw [insertBy, if_pos hxy]
    calc
      insertBy cmp x (sortBy cmp xs) = insertBy cmp x (front ++ back) := by rw [ih, hxs]
      _ = front ++ x :: back := by rw [insertBy_append (by simpa using hfront), hback]
      _ = (x :: xs).mergeSort fun a b => (cmp a b).isLE := hcons.symm

@[simp] theorem mem_sortBy {z : α} {xs : List α} : z ∈ sortBy cmp xs ↔ z ∈ xs := by
  rw [sortBy_eq_mergeSort, List.mem_mergeSort]

theorem perm_sortBy (xs : List α) : (sortBy cmp xs).Perm xs := by
  rw [sortBy_eq_mergeSort]
  exact List.mergeSort_perm ..

theorem pairwise_sortBy (xs : List α) : (sortBy cmp xs).Pairwise fun a b => (cmp a b).isLE := by
  rw [sortBy_eq_mergeSort]
  exact List.pairwise_mergeSort (fun _ _ _ => Std.TransCmp.isLE_trans) (isLE_total cmp) xs

end Sorting

/-! ## Keys -/

section Keys

/-- The first element with the given key. -/
def lookup? {κ : Type} [DecidableEq κ] (key : α → κ) (k : κ) (xs : List α) : Option α := xs.find? (key · = k)

variable (key : α → String)

/-- The keys of the list strictly increase. -/
abbrev Increasing (xs : List α) : Prop := xs.Pairwise fun a b => key a < key b

/-- Enters an element at its place, instead of the one with its key if there is one. -/
def put (x : α) : List α → List α
  | [] => [x]
  | y :: ys => if key x < key y then x :: y :: ys else if key x = key y then x :: ys else y :: put x ys

variable {key}

/-- Strictly increasing keys are pairwise different. -/
theorem Increasing.ne {xs : List α} (h : Increasing key xs) :
    xs.Pairwise fun a b => key a ≠ key b := by
  refine List.Pairwise.imp ?_ h
  intro a b hab he
  rw [he] at hab
  exact String.lt_irrefl _ hab

/-- What is in a list after `put` is the new element or was there. -/
theorem mem_of_mem_put {x z : α} {ys : List α} (h : z ∈ put key x ys) : z = x ∨ z ∈ ys := by
  induction ys with
  | nil => simpa [put] using h
  | cons y ys ih =>
    rw [put] at h
    split at h
    · simpa using h
    · split at h
      · rcases List.mem_cons.mp h with h | h
        · exact .inl h
        · exact .inr (List.mem_cons_of_mem _ h)
      · rcases List.mem_cons.mp h with h | h
        · exact .inr (h ▸ List.mem_cons_self)
        · exact (ih h).imp_right (List.mem_cons_of_mem _)

/-- Entering an element keeps the keys strictly increasing. -/
theorem Increasing.put {x : α} {ys : List α} (h : Increasing key ys) : Increasing key (put key x ys) := by
  induction h with
  | nil => simp [Sorted.put]
  | @cons y ys hy hys ih =>
    rw [Sorted.put]
    split
    next hxy =>
      refine .cons (fun z hz => ?_) (.cons hy hys)
      rcases List.mem_cons.mp hz with rfl | hz
      · exact hxy
      · exact String.lt_trans hxy (hy z hz)
    next hxy =>
      split
      next he => exact .cons (fun z hz => he ▸ hy z hz) hys
      next he =>
        refine .cons (fun z hz => ?_) ih
        rcases mem_of_mem_put hz with rfl | hz
        · exact (Std.lt_trichotomy (key y) (key z)).resolve_right (by simp [hxy, Ne.symm he])
        · exact hy z hz

/-- Looking up after `put`. -/
theorem lookup?_put {x : α} {k : String} {ys : List α} (h : Increasing key ys) :
    lookup? key k (put key x ys) = if key x = k then some x else lookup? key k ys := by
  induction h with
  | nil => by_cases hk : key x = k <;> simp [Sorted.put, lookup?, hk]
  | @cons y ys hy hys ih =>
    simp only [lookup?] at ih
    rw [Sorted.put]
    split
    next hxy => by_cases hk : key x = k <;> simp [lookup?, hk]
    next hxy =>
      split
      next he =>
        by_cases hk : key x = k
        · simp [lookup?, hk]
        · simp [lookup?, hk, he ▸ hk]
      next he =>
        by_cases hk : key y = k
        · have : key x ≠ k := hk ▸ he
          simp [lookup?, hk, this]
        · simp [lookup?, hk, ih]

end Keys

/-! ## Union -/

/-- The union of two lists sorted by `cmp`, in which `both` replaces elements that compare equal. -/
def unionBy (cmp : α → α → Ordering) (both : α → α → Option α) : List α → List α → List α
  | [], ys => ys
  | xs, [] => xs
  | x :: xs, y :: ys =>
    match cmp x y with
    | .lt => x :: unionBy cmp both xs (y :: ys)
    | .gt => y :: unionBy cmp both (x :: xs) ys
    | .eq => (both x y).toList ++ unionBy cmp both xs ys
termination_by xs ys => xs.length + ys.length

end MetricGateway.Sorted
