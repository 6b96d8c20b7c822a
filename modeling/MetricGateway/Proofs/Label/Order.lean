import MetricGateway.Label.Basic
import MetricGateway.Proofs.Rearrangement

/-!
# The order of label sets

The orders on labels and on label sets are total, and only equal labels and equal label sets compare equal. A label set
is the set of the labels that it lists, in whatever order (`ofList?_eq_ok_iff`).
-/

namespace MetricGateway

instance : Std.TransOrd Label := inferInstanceAs (Std.TransCmp (compareLex _ _))

instance : Std.LawfulEqOrd Label where
  eq_of_compare {a b} h := by
    obtain ⟨hn, hv⟩ := compareLex_eq_eq.mp h
    cases a; cases b
    cases Std.LawfulEqOrd.eq_of_compare hn
    cases Std.LawfulEqOrd.eq_of_compare hv
    rfl

instance : Std.TransOrd LabelSet := inferInstanceAs (Std.TransCmp (compareOn LabelSet.toList))

instance : Std.LawfulEqOrd LabelSet where
  eq_of_compare h := LabelSet.ext (Std.LawfulEqOrd.eq_of_compare h)

namespace LabelSet

theorem firstRepeat?_eq_none {ls : List Label} (h : ls.Pairwise fun a b => a.name ≠ b.name) :
    firstRepeat? ls = none := by
  induction ls with
  | nil => rfl
  | cons a r ih =>
    cases r with
    | nil => rfl
    | cons b r =>
      have hab : a.name ≠ b.name := List.rel_of_pairwise_cons h List.mem_cons_self
      rw [firstRepeat?, if_neg hab, ih h.of_cons]

/-- A set lists its labels sorted by their names. -/
theorem toList_eq_sortBy {ls : List Label} {s : LabelSet} (h : ls.Perm s.toList) :
    s.toList = Sorted.sortBy (compareOn Label.name) ls := by
  have hnames : (ls.map Label.name).Nodup := (h.map Label.name).nodup_iff.mpr (List.pairwise_map.mpr s.increasing.ne)
  have hle : s.toList.Pairwise fun a b => (compareOn Label.name a b).isLE := s.increasing.imp fun {a b} hab => by
    have hlt : compareOn Label.name a b = .lt := compareOfLessAndEq_eq_lt.mpr hab
    rw [hlt]
    rfl
  exact ((Rearranged.of_perm h hnames).sortBy_eq.trans (Sorted.sortBy_eq_self hle)).symm

/-- The set of the given labels lists them, in whatever order they were given. -/
theorem ofList?_eq_ok_iff {ls : List Label} {s : LabelSet} : ofList? ls = .ok s ↔ ls.Perm s.toList := by
  constructor
  · intro h
    unfold ofList? at h
    dsimp only at h
    split at h
    · cases h
    · cases h
      exact (Sorted.perm_sortBy ls).symm
  · intro h
    have hsorted : Sorted.sortBy (compareOn Label.name) ls = s.toList := (toList_eq_sortBy h).symm
    unfold ofList?
    dsimp only
    split
    next name hrepeat =>
      rw [hsorted, firstRepeat?_eq_none s.increasing.ne] at hrepeat
      cases hrepeat
    next => exact congrArg Except.ok (ext hsorted)

/-- Labels are those of a set exactly if their names are different. -/
theorem exists_ofList?_iff {ls : List Label} : (∃ s, ofList? ls = .ok s) ↔ (ls.map Label.name).Nodup := by
  constructor
  · rintro ⟨s, hs⟩
    have hperm := (ofList?_eq_ok_iff.mp hs).map Label.name
    exact hperm.nodup_iff.mpr (List.pairwise_map.mpr s.increasing.ne)
  · intro h
    have hsorted : (Sorted.sortBy (compareOn Label.name) ls).Pairwise fun a b => a.name ≠ b.name :=
      List.pairwise_map.mp (((Sorted.perm_sortBy ls).map Label.name).nodup_iff.mpr h)
    unfold ofList?
    dsimp only
    split
    next name hrepeat =>
      rw [firstRepeat?_eq_none hsorted] at hrepeat
      cases hrepeat
    next => exact ⟨_, rfl⟩

theorem ofList?_toList (s : LabelSet) : ofList? s.toList = .ok s := ofList?_eq_ok_iff.mpr (.refl _)

/-- Sets that list the same labels in any order are equal. -/
theorem eq_of_perm {s t : LabelSet} (h : s.toList.Perm t.toList) : s = t :=
  ext (h.eq_of_pairwise (fun _ _ _ _ hab hba => absurd hba (String.lt_asymm hab)) s.increasing t.increasing)

/-- Sets that hold the same labels are equal. -/
theorem ext_mem {s t : LabelSet} (h : ∀ l, l ∈ s.toList ↔ l ∈ t.toList) : s = t := by
  have hnodup : ∀ s : LabelSet, s.toList.Nodup := fun s => s.increasing.ne.imp fun hne he => hne (congrArg _ he)
  exact eq_of_perm ((List.perm_ext_iff_of_nodup (hnodup s) (hnodup t)).mpr h)

end LabelSet
end MetricGateway
