import Mathlib.Data.List.Duplicate
import MetricGateway.Proofs.Label.LastWriter
import MetricGateway.Proofs.Sorted.Bisection
import MetricGateway.Proofs.Text.ByteOrder

/-!
# A label set is a finite map

Labels in any order make a set exactly if their names differ, and the set depends on the labels alone. Its list stands
in the order of the bytes of the names, so a name is found by halving it (`IsMapOf`). If names are repeated, the least
one of them stands first among the repeated names of the sorted list, so it is the one that is reported
(`firstRepeat?_eq_some_iff`). Sets compare equal exactly if they hold the same labels (`compare_eq_iff_forall_mem`).
-/

namespace MetricGateway

/-- The name is given more than once, and no name with smaller bytes is. -/
structure LeastRepeated (names : List String) (name : String) : Prop where
  repeated : List.Duplicate name names
  least : ∀ other, List.Duplicate other names → ¬ Utf8.bytesOf other < Utf8.bytesOf name

theorem LeastRepeated.unique {names : List String} {m n : String} (hm : LeastRepeated names m)
    (hn : LeastRepeated names n) : m = n := by
  rcases Std.lt_trichotomy m n with hlt | heq | hgt
  · exact absurd (Utf8.bytesOf_lt_iff.mpr hlt) (hn.least m hm.repeated)
  · exact heq
  · exact absurd (Utf8.bytesOf_lt_iff.mpr hgt) (hm.least n hn.repeated)

theorem leastRepeated_congr {names names' : List String}
    (h : ∀ other, List.Duplicate other names ↔ List.Duplicate other names') {name : String} :
    LeastRepeated names name ↔ LeastRepeated names' name :=
  ⟨fun ⟨hname, hleast⟩ => ⟨(h name).mp hname, fun other hother => hleast other ((h other).mpr hother)⟩,
    fun ⟨hname, hleast⟩ => ⟨(h name).mpr hname, fun other hother => hleast other ((h other).mp hother)⟩⟩

/-- A name that does not come again repeats nothing. -/
theorem leastRepeated_cons_of_not_mem {names : List String} {first : String} (h : first ∉ names) {name : String} :
    LeastRepeated (first :: names) name ↔ LeastRepeated names name := by
  refine leastRepeated_congr fun other => ?_
  rw [List.duplicate_cons_iff, or_iff_right]
  rintro ⟨rfl, hmem⟩
  exact h hmem

theorem leastRepeated_perm {names names' : List String} (h : names.Perm names') {name : String} :
    LeastRepeated names name ↔ LeastRepeated names' name := by
  refine leastRepeated_congr fun other => ?_
  rw [List.duplicate_iff_two_le_count, List.duplicate_iff_two_le_count, h.count_eq]

namespace LabelSet

/-! ## Repeated names -/

theorem not_lt_of_isLE_compareOn {a b : Label} (h : (compareOn Label.name a b).isLE) : ¬ b.name < a.name := by
  intro hlt
  exact String.lt_asymm hlt (lt_of_isLE_compareOn h (String.ne_of_lt hlt).symm)

/-- **Of the repeated names the least one is met first in the sorted list.** -/
theorem firstRepeat?_eq_some_iff {ls : List Label} (h : ls.Pairwise fun a b => (compareOn Label.name a b).isLE)
    {name : String} : firstRepeat? ls = some name ↔ LeastRepeated (ls.map Label.name) name := by
  induction ls with
  | nil => exact iff_of_false nofun fun h => List.not_duplicate_nil _ h.repeated
  | cons a r ih =>
    cases r with
    | nil => exact iff_of_false nofun fun h => List.not_duplicate_singleton _ _ h.repeated
    | cons b r =>
      obtain ⟨ha, hr⟩ := List.pairwise_cons.mp h
      rw [firstRepeat?]
      split
      next heq =>
        have hleast : LeastRepeated ((a :: b :: r).map Label.name) a.name := by
          refine ⟨.cons_mem (heq ▸ List.mem_cons_self), fun other hother hlt => ?_⟩
          obtain ⟨c, hc, rfl⟩ := List.mem_map.mp hother.mem
          rcases List.mem_cons.mp hc with rfl | hc
          · exact absurd (Utf8.bytesOf_lt_iff.mp hlt) (String.lt_irrefl _)
          · exact not_lt_of_isLE_compareOn (ha c hc) (Utf8.bytesOf_lt_iff.mp hlt)
        constructor
        · rintro ⟨⟩
          exact hleast
        · exact fun hname => congrArg some (hleast.unique hname)
      next hne =>
        have hfresh : a.name ∉ (b :: r).map Label.name := by
          have hab : a.name < b.name := lt_of_isLE_compareOn (ha b List.mem_cons_self) hne
          intro hmem
          obtain ⟨c, hc, hname⟩ := List.mem_map.mp hmem
          rcases List.mem_cons.mp hc with rfl | hc
          · exact hne hname.symm
          · exact not_lt_of_isLE_compareOn (List.rel_of_pairwise_cons hr hc) (hname ▸ hab)
        exact (ih hr).trans (leastRepeated_cons_of_not_mem hfresh).symm

theorem ofList?_eq_error_iff {ls : List Label} {e : RepeatedName} :
    ofList? ls = .error e ↔ LeastRepeated (ls.map Label.name) e.name := by
  have hsorted : firstRepeat? (Sorted.sortBy (compareOn Label.name) ls) = some e.name ↔ LeastRepeated _ e.name :=
    firstRepeat?_eq_some_iff (Sorted.pairwise_sortBy ls)
  have hperm : (Sorted.sortBy (compareOn Label.name) ls).Perm ls := Sorted.perm_sortBy ls
  rw [← leastRepeated_perm (hperm.map Label.name), ← hsorted]
  unfold ofList?
  dsimp only
  split
  next name hname =>
    rw [hname]
    constructor
    · rintro ⟨⟩
      rfl
    · rintro ⟨⟩
      rfl
  next hnone =>
    refine iff_of_false nofun fun hname => ?_
    rw [hnone] at hname
    cases hname

theorem ofList?_perm {ls ls' : List Label} (h : ls.Perm ls') : ofList? ls' = ofList? ls := by
  cases hls : ofList? ls with
  | error e => exact ofList?_eq_error_iff.mpr ((leastRepeated_perm (h.map _)).mp (ofList?_eq_error_iff.mp hls))
  | ok s => exact ofList?_eq_ok_iff.mpr (h.symm.trans (ofList?_eq_ok_iff.mp hls))

/-! ## Sets and maps -/

/-- The set as a map: it lists the given labels in the order of the bytes of their names, the value of a name is the one
that was given with it, and halving the list finds that value. -/
structure IsMapOf (s : LabelSet) (ls : List Label) : Prop where
  perm : s.toList.Perm ls
  ascending : s.toList.Pairwise fun a b => Utf8.bytesOf a.name < Utf8.bytesOf b.name
  get?_iff : ∀ name value, s.get? name = some value ↔ ⟨name, value⟩ ∈ ls
  bisect? : ∀ name, (Sorted.bisect? Label.name name s.toList).map Label.value = s.get? name

theorem isMapOf_of_perm {s : LabelSet} {ls : List Label} (h : s.toList.Perm ls) : s.IsMapOf ls where
  perm := h
  ascending := s.increasing.imp Utf8.bytesOf_lt_iff.mpr
  get?_iff name value := (mem_toList_iff (l := ⟨name, value⟩)).symm.trans h.mem_iff
  bisect? name := by rw [Sorted.bisect?_eq_lookup? s.increasing, get?]

/-- Sets compare equal if they hold the same labels, and only then. -/
theorem compare_eq_iff_forall_mem {s t : LabelSet} :
    compare s t = .eq ↔ ∀ l, l ∈ s.toList ↔ l ∈ t.toList := by
  constructor
  · intro h l
    rw [Std.LawfulEqOrd.eq_of_compare h]
  · intro h
    rw [ext_mem h]
    exact Std.ReflCmp.compare_self

/-- **A label set is a canonical finite map.** Labels make a set exactly if their names are different. The set that they
make is the map of these labels, and whatever order they are given in, the answer is the same. Otherwise the least name
that is given more than once is reported. Two sets compare equal exactly if they hold the same labels. -/
theorem ofList?_makes_map (ls : List Label) :
    ((∃ s, ofList? ls = .ok s) ↔ (ls.map Label.name).Nodup) ∧
      (∀ s, ofList? ls = .ok s ↔ s.IsMapOf ls) ∧
      (∀ ls', ls.Perm ls' → ofList? ls' = ofList? ls) ∧
      (∀ e, ofList? ls = .error e ↔ LeastRepeated (ls.map Label.name) e.name) ∧
      ∀ s t : LabelSet, compare s t = .eq ↔ ∀ l, l ∈ s.toList ↔ l ∈ t.toList := by
  refine ⟨exists_ofList?_iff, fun s => ?_, fun _ => ofList?_perm, fun _ => ofList?_eq_error_iff,
    fun _ _ => compare_eq_iff_forall_mem⟩
  constructor
  · exact fun hs => isMapOf_of_perm (ofList?_eq_ok_iff.mp hs).symm
  · exact fun hs => ofList?_eq_ok_iff.mpr hs.perm.symm

/-- Three labels in two orders, and four labels with two repeated names. -/
theorem ofList?_makes_map_zones :
    (∃ s, ofList? [⟨"zone", "a"⟩, ⟨"job", "b"⟩, ⟨"Job", "c"⟩] = .ok s ∧
        ofList? [⟨"Job", "c"⟩, ⟨"zone", "a"⟩, ⟨"job", "b"⟩] = .ok s ∧ s.get? "job" = some "b") ∧
      ofList? [⟨"zone", "a"⟩, ⟨"job", "b"⟩, ⟨"zone", "c"⟩, ⟨"job", "d"⟩] = .error ⟨"job"⟩ ∧
      LeastRepeated ["zone", "job", "zone", "job"] "job" := by
  obtain ⟨hdistinct, hmap, hperm, -, -⟩ := ofList?_makes_map [⟨"zone", "a"⟩, ⟨"job", "b"⟩, ⟨"Job", "c"⟩]
  obtain ⟨-, -, -, hrepeated, -⟩ := ofList?_makes_map [⟨"zone", "a"⟩, ⟨"job", "b"⟩, ⟨"zone", "c"⟩, ⟨"job", "d"⟩]
  obtain ⟨s, hs⟩ := hdistinct.mpr (by decide)
  have herror : ofList? [⟨"zone", "a"⟩, ⟨"job", "b"⟩, ⟨"zone", "c"⟩, ⟨"job", "d"⟩] = .error ⟨"job"⟩ := by decide
  refine ⟨⟨s, hs, ?_, ?_⟩, herror, (hrepeated ⟨"job"⟩).mp herror⟩
  · rw [hperm _ (by decide), hs]
  · exact (((hmap s).mp hs).get?_iff "job" "b").mpr (by decide)

end LabelSet
end MetricGateway
