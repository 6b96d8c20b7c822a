/-!
# Entries in the order of their first appearance

An association list that remembers the order in which its keys were first seen; its values are found by `List.lookup`.
`alter k initial f` changes the entry of `k` in place, or adds one at the end, made from `initial`; `lookup_alter` says
what the list holds after it, and `mem_alter` where its entries come from.
-/

namespace MetricGateway.Appearance

variable {κ β : Type} [DecidableEq κ]

/-- Changes the value of a key in place, or adds an entry at the end. -/
def alter (k : κ) (initial : β) (f : β → β) : List (κ × β) → List (κ × β)
  | [] => [(k, f initial)]
  | (l, v) :: r => if l = k then (l, f v) :: r else (l, v) :: alter k initial f r

theorem lookup_cons (k l : κ) (v : β) (xs : List (κ × β)) :
    ((l, v) :: xs).lookup k = if l = k then some v else xs.lookup k := by
  by_cases h : l = k
  · simp [h]
  · simp [List.lookup_cons, h, beq_eq_false_iff_ne.mpr (Ne.symm h)]

/-- After a change, its key has the changed value and every other key what it had. -/
theorem lookup_alter (k l : κ) (initial : β) (f : β → β) (xs : List (κ × β)) :
    (alter k initial f xs).lookup l = if k = l then some (f ((xs.lookup k).getD initial)) else xs.lookup l := by
  induction xs with
  | nil => simp [alter, lookup_cons]
  | cons x xs ih =>
    obtain ⟨m, v⟩ := x
    rw [alter]
    split
    next h => subst h; by_cases hl : m = l <;> simp [lookup_cons, hl]
    next h =>
      by_cases hl : m = l
      · subst hl; simp [Ne.symm h]
      · simp [lookup_cons, hl, h, ih]

/-- What a list holds after a change is what it held, or the changed entry. -/
theorem mem_alter {k : κ} {initial : β} {f : β → β} {xs : List (κ × β)}
    {e : κ × β} (h : e ∈ alter k initial f xs) : e ∈ xs ∨ e = (k, f ((xs.lookup k).getD initial)) := by
  induction xs with
  | nil => exact .inr (by simpa [alter] using h)
  | cons x xs ih =>
    obtain ⟨l, v⟩ := x
    rw [alter] at h
    split at h
    next hl =>
      rcases List.mem_cons.mp h with rfl | h
      · exact .inr (by simp [hl])
      · exact .inl (List.mem_cons_of_mem _ h)
    next hl =>
      rcases List.mem_cons.mp h with rfl | h
      · exact .inl List.mem_cons_self
      · rcases ih h with h | h
        · exact .inl (List.mem_cons_of_mem _ h)
        · exact .inr (by simpa [lookup_cons, hl] using h)

/-- A value that is found is in the list. -/
theorem mem_of_lookup {k : κ} {v : β} {xs : List (κ × β)} (h : xs.lookup k = some v) : (k, v) ∈ xs := by
  obtain ⟨front, back, rfl, -⟩ := List.lookup_eq_some_iff.mp h
  exact List.mem_append_right _ List.mem_cons_self

end MetricGateway.Appearance
