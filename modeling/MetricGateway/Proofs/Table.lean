import MetricGateway.Proofs.Sorted.Ascending
import MetricGateway.Table

/-!
# The contents of tables

A table is known by what `get?` says of each key (`ext_get?`). `mem_entries_iff` reads an entry as a value of its key,
`get?_filter` and `get?_map` say what is left of a value after a change of the whole table, and `get?_ofList` that a
table made of a list holds the last value of each key.
-/

namespace MetricGateway.Table

variable {β γ : Type}

theorem mem_entries_iff (t : Table β) (k : String) (v : β) : (k, v) ∈ t.entries ↔ t.get? k = some v := by
  have h : ∀ e, Sorted.lookup? Prod.fst k t.entries = some e ↔ e ∈ t.entries ∧ e.1 = k :=
    fun e => Sorted.lookup?_eq_some_iff t.increasing.ne
  simp only [get?, Option.map_eq_some_iff, h]
  constructor
  · intro he
    exact ⟨(k, v), ⟨he, rfl⟩, rfl⟩
  · rintro ⟨⟨_, _⟩, ⟨he, rfl⟩, rfl⟩
    exact he

theorem get?_eq_none_iff (t : Table β) (k : String) : t.get? k = none ↔ ∀ e ∈ t.entries, e.1 ≠ k := by
  rw [get?, Option.map_eq_none_iff]
  exact Sorted.lookup?_eq_none_iff

/-- Tables that hold the same are equal. -/
theorem ext_get? {s t : Table β} (h : ∀ k, s.get? k = t.get? k) : s = t := by
  have hmem : ∀ e, e ∈ s.entries ↔ e ∈ t.entries := fun e => by
    rw [mem_entries_iff, mem_entries_iff, h]
  have hs : s.entries.Nodup := s.increasing.ne.imp fun hne he => hne (congrArg Prod.fst he)
  have ht : t.entries.Nodup := t.increasing.ne.imp fun hne he => hne (congrArg Prod.fst he)
  refine ext (List.Perm.eq_of_pairwise (fun a b _ _ hab hba => ?_) s.increasing t.increasing
    ((List.perm_ext_iff_of_nodup hs ht).mpr hmem))
  exact absurd hba (String.lt_asymm hab)

theorem insert_comm (t : Table β) {k l : String} (h : k ≠ l) (v w : β) :
    (t.insert k v).insert l w = (t.insert l w).insert k v := by
  refine ext_get? fun m => ?_
  simp only [get?_insert]
  by_cases hk : k = m
  · rw [if_pos hk, if_pos hk, if_neg fun hl => h (hk.trans hl.symm)]
  · rw [if_neg hk, if_neg hk]

/-- Entering the value that is there changes nothing. -/
theorem insert_eq_self {t : Table β} {k : String} {v : β} (h : t.get? k = some v) : t.insert k v = t := by
  refine ext_get? fun m => ?_
  rw [get?_insert]
  split
  next hk => rw [← hk, h]
  next => rfl

theorem get?_filter (t : Table β) (p : String → β → Bool) (k : String) :
    (t.filter p).get? k = (t.get? k).filter (p k) := by
  ext v
  rw [← mem_entries_iff, Option.filter_eq_some_iff, ← mem_entries_iff]
  exact List.mem_filter

theorem get?_map (t : Table β) (f : String → β → γ) (k : String) : (t.map f).get? k = (t.get? k).map (f k) := by
  ext v
  rw [← mem_entries_iff, Option.map_eq_some_iff]
  simp only [map, List.mem_map, ← mem_entries_iff]
  constructor
  · rintro ⟨⟨l, w⟩, he, heq⟩
    obtain ⟨rfl, rfl⟩ := Prod.mk.inj heq
    exact ⟨w, he, rfl⟩
  · rintro ⟨w, he, rfl⟩
    exact ⟨(k, w), he, rfl⟩

/-- Some key of the table passes a test exactly if some value of the table has such a key. -/
theorem any_keys_iff (t : Table β) (p : String → Bool) :
    t.keys.any p = true ↔ ∃ k v, t.get? k = some v ∧ p k = true := by
  simp only [keys, List.any_eq_true, List.mem_map]
  constructor
  · rintro ⟨k, ⟨⟨_, v⟩, he, rfl⟩, hk⟩
    exact ⟨_, v, (mem_entries_iff t _ v).mp he, hk⟩
  · rintro ⟨k, v, hv, hk⟩
    exact ⟨k, ⟨(k, v), (mem_entries_iff t k v).mpr hv, rfl⟩, hk⟩

theorem entries_eq_nil_iff (t : Table β) : t.entries = [] ↔ ∀ k, t.get? k = none := by
  rw [List.eq_nil_iff_forall_not_mem]
  constructor
  · intro h k
    exact (get?_eq_none_iff t k).mpr fun e he => absurd he (h e)
  · intro h e he
    exact (get?_eq_none_iff t e.1).mp (h e.1) e he rfl

theorem size_eq_zero_iff (t : Table β) : t.size = 0 ↔ ∀ k, t.get? k = none := by
  rw [size, List.length_eq_zero_iff, entries_eq_nil_iff]

/-- Of the values that are entered, the last one of each key counts. -/
theorem get?_foldl_insert (t : Table β) (es : List (String × β)) (k : String) :
    (es.foldl (fun t e => t.insert e.1 e.2) t).get? k = ((es.reverse.find? (·.1 = k)).map Prod.snd).or (t.get? k) := by
  induction es generalizing t with
  | nil => rfl
  | cons e es ih =>
    rw [List.foldl_cons, ih, get?_insert, List.reverse_cons, List.find?_append]
    cases es.reverse.find? (·.1 = k) with
    | none => by_cases h : e.1 = k <;> simp [h]
    | some _ => rfl

theorem get?_ofList (es : List (String × β)) (k : String) :
    (ofList es).get? k = (es.reverse.find? (·.1 = k)).map Prod.snd := by
  rw [ofList, get?_foldl_insert, get?_empty, Option.or_none]

theorem ofList_entries (t : Table β) : ofList t.entries = t := by
  have hkeys : t.entries.reverse.Pairwise fun a b => a.1 ≠ b.1 :=
    List.pairwise_reverse.mpr (t.increasing.ne.imp Ne.symm)
  refine ext_get? fun k => ?_
  ext v
  rw [get?_ofList, Option.map_eq_some_iff, ← mem_entries_iff]
  have hfind : ∀ e, t.entries.reverse.find? (·.1 = k) = some e ↔ e ∈ t.entries.reverse ∧ e.1 = k :=
    fun e => Sorted.lookup?_eq_some_iff hkeys
  simp only [hfind, List.mem_reverse]
  constructor
  · rintro ⟨⟨_, _⟩, ⟨he, rfl⟩, rfl⟩
    exact he
  · intro he
    exact ⟨(k, v), ⟨he, rfl⟩, rfl⟩

theorem nodup_keys (t : Table β) : t.keys.Nodup := List.pairwise_map.mpr t.increasing.ne

/-- The table of a list holds nothing else. -/
theorem mem_of_get?_ofList {es : List (String × β)} {k : String} {v : β} (h : (ofList es).get? k = some v) :
    (k, v) ∈ es := by
  rw [get?_ofList, Option.map_eq_some_iff] at h
  obtain ⟨e, he, rfl⟩ := h
  have hmem := List.mem_reverse.mp (List.mem_of_find?_eq_some he)
  have hk : e.1 = k := by simpa using List.find?_some he
  rw [← hk]
  exact hmem

theorem size_ofList_ne_zero {es : List (String × β)} {e : String × β} (he : e ∈ es) : (ofList es).size ≠ 0 := by
  intro h
  have hnone := (size_eq_zero_iff _).mp h e.1
  rw [get?_ofList, Option.map_eq_none_iff, List.find?_eq_none] at hnone
  exact hnone e (List.mem_reverse.mpr he) (by simp)

end MetricGateway.Table
