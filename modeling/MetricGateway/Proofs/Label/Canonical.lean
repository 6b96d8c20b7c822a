import MetricGateway.Proofs.Label.Order
import MetricGateway.Store.Ingest

/-!
# The values of canonical labels

Of the labels that are added to a set the last one of each name counts (`get?_insertAll`), and an ignored name has no
value (`get?_canonical`).
-/

namespace MetricGateway

/-- The first label gives the value if no later one has the name. -/
theorem lastValue?_cons (name : String) (l : Label) (ls : List Label) :
    lastValue? name (l :: ls) = (lastValue? name ls).or (if l.name = name then some l.value else none) := by
  unfold lastValue?
  rw [List.reverse_cons, List.find?_append]
  cases ls.reverse.find? (·.name = name) with
  | none => by_cases h : l.name = name <;> simp [h]
  | some _ => rfl

namespace LabelSet

theorem get?_insertAll (s : LabelSet) (ls : List Label) (name : String) :
    (s.insertAll ls).get? name = (lastValue? name ls).or (s.get? name) := by
  induction ls generalizing s with
  | nil => rfl
  | cons l ls ih =>
    have hl : s.insertAll (l :: ls) = (s.insert l).insertAll ls := rfl
    rw [hl, ih, get?_insert, lastValue?_cons, Option.or_assoc]
    split <;> rfl

/-- A test on names leaves the values of the names that pass. -/
theorem get?_filter (s : LabelSet) (p : String → Bool) (name : String) :
    (s.filter fun l => p l.name).get? name = if p name then s.get? name else none := by
  have h : Sorted.lookup? Label.name name (s.toList.filter fun l => p l.name)
      = (Sorted.lookup? Label.name name s.toList).filter fun l => p l.name := Sorted.lookup?_filter s.increasing.ne
  rw [get?, filter, h, get?]
  cases hf : Sorted.lookup? Label.name name s.toList with
  | none => simp
  | some l =>
    obtain ⟨-, rfl⟩ := Sorted.mem_of_lookup? hf
    by_cases hp : p l.name <;> simp [Option.filter, hp]

/-- The canonical value of a name is that of the last injected label of the name, or else the set's own; an ignored
name has none. -/
theorem get?_canonical (s : LabelSet) (injected : List Label) (ignored : IgnoredNames) (name : String) :
    (s.canonical injected ignored).get? name
      = if ignored.contains name then none else (lastValue? name injected).or (s.get? name) := by
  rw [canonical, get?_filter (p := fun n => !ignored.contains n), get?_insertAll]
  cases ignored.contains name <;> rfl

end LabelSet
end MetricGateway
