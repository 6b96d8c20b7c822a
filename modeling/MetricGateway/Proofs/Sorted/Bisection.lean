import MetricGateway.Proofs.Sorted.Ascending
import MetricGateway.Sorted

/-!
# Binary search by key

`bisect?` looks at the element in the middle of a list and goes on below or above it. What it finds is in the list and
has the key, however the list is ordered (`mem_of_bisect?`). That it finds what is there needs keys that increase, since
it never looks at the other half (`bisect?_eq_some_iff`); then it finds what a search from the start would find
(`bisect?_eq_lookup?`).
-/

namespace MetricGateway.Sorted

variable {α : Type} {key : α → String} {k : String} {xs : List α}

/-- The element with the given key, searched for by halving the list. -/
def bisect? (key : α → String) (k : String) (xs : List α) : Option α :=
  match _hmiddle : xs.drop (xs.length / 2) with
  | [] => none
  | x :: above =>
    if key x = k then some x
    else if k < key x then bisect? key k (xs.take (xs.length / 2))
    else bisect? key k above
termination_by xs.length
decreasing_by
  all_goals
    have hlength := congrArg List.length _hmiddle
    simp only [List.length_drop, List.length_take, List.length_cons] at *
    omega

theorem mem_of_bisect? {x : α} (h : bisect? key k xs = some x) : x ∈ xs ∧ key x = k := by
  fun_induction bisect? key k xs with
  | case1 => cases h
  | case2 xs y above hmiddle hk =>
    cases h
    exact ⟨List.mem_of_mem_drop (hmiddle ▸ List.mem_cons_self), hk⟩
  | case3 xs y above hmiddle hne hlt ih => exact (ih h).imp_left List.mem_of_mem_take
  | case4 xs y above hmiddle hne hge ih =>
    exact (ih h).imp_left fun hx => List.mem_of_mem_drop (hmiddle ▸ List.mem_cons_of_mem y hx)

/-- The middle of a list, and what stands below and above it. -/
theorem take_append_middle {x : α} {above : List α} (hmiddle : xs.drop (xs.length / 2) = x :: above) :
    xs = xs.take (xs.length / 2) ++ x :: above := by
  rw [← hmiddle, List.take_append_drop]

/-- **Where the keys increase, halving finds what is there.** -/
theorem bisect?_eq_some_iff (h : Increasing key xs) {x : α} : bisect? key k xs = some x ↔ x ∈ xs ∧ key x = k := by
  refine ⟨mem_of_bisect?, ?_⟩
  rintro ⟨hx, hk⟩
  fun_induction bisect? key k xs with
  | case1 xs hmiddle =>
    have hnil := List.drop_eq_nil_iff.mp hmiddle
    have hpos := List.length_pos_of_mem hx
    omega
  | case2 xs y above hmiddle hy =>
    have hkeys : xs.Pairwise fun a b => key a ≠ key b := h.ne
    have hmem : y ∈ xs := List.mem_of_mem_drop (hmiddle ▸ List.mem_cons_self)
    have hfound := (lookup?_eq_some_iff hkeys).mpr ⟨hmem, hy⟩
    exact hfound.symm.trans ((lookup?_eq_some_iff hkeys).mpr ⟨hx, hk⟩)
  | case3 xs y above hmiddle hne hlt ih =>
    have hsplit := take_append_middle hmiddle
    refine ih (h.sublist (List.take_sublist _ xs)) ?_
    rw [hsplit] at h hx
    obtain ⟨-, habove, -⟩ := List.pairwise_append.mp h
    rcases List.mem_append.mp hx with hx | hx
    · exact hx
    -- an element from the middle on has a key of at least that in the middle
    rcases List.mem_cons.mp hx with rfl | hx
    · exact absurd hk hne
    · have hxy := List.rel_of_pairwise_cons habove hx
      rw [hk] at hxy
      exact absurd hxy (String.lt_asymm hlt)
  | case4 xs y above hmiddle hne hge ih =>
    have hsplit := take_append_middle hmiddle
    rw [hsplit] at h hx
    obtain ⟨-, habove, hbelow⟩ := List.pairwise_append.mp h
    refine ih habove.of_cons ?_
    rcases List.mem_append.mp hx with hx | hx
    · have hxy := hbelow x hx y List.mem_cons_self
      rw [hk] at hxy
      exact absurd hxy hge
    rcases List.mem_cons.mp hx with rfl | hx
    · exact absurd hk hne
    · exact hx

theorem bisect?_eq_lookup? (h : Increasing key xs) : bisect? key k xs = lookup? key k xs := by
  ext x
  rw [bisect?_eq_some_iff h]
  exact (lookup?_eq_some_iff h.ne).symm

end MetricGateway.Sorted
