import Mathlib.Data.List.Forall2
import Mathlib.Data.List.Nodup
import MetricGateway.Appearance

/-!
# The keys of entries

A key that has no entry is new: changing it adds an entry at the end (`alter_of_not_mem`), and changing it again changes
this entry (`alter_append_singleton`). An entry stays in its place whatever else is changed (`alter_append_cons`,
`exists_alter_append_cons`). A change keeps the keys that are there and their order (`map_fst_alter`), so no key ever
occurs twice (`nodup_alter`).

Lists that give the same keys related values are `Alike`. Exchanging two changes leads to lists that are alike
(`alike_alter_alter`), and lists that are alike are the same up to their order and related values (`Alike.exists_perm`).
-/

namespace MetricGateway.Appearance

variable {κ β : Type} [DecidableEq κ] {k : κ} {xs : List (κ × β)}

theorem lookup_eq_none_iff : xs.lookup k = none ↔ k ∉ xs.map Prod.fst := by
  simp only [List.lookup_eq_none_iff, bne_iff_ne, List.mem_map, not_exists, not_and]
  exact forall₂_congr fun e _ => ne_comm

theorem alter_of_not_mem (initial : β) (f : β → β) (h : k ∉ xs.map Prod.fst) :
    alter k initial f xs = xs ++ [(k, f initial)] := by
  induction xs with
  | nil => rfl
  | cons x xs ih =>
    obtain ⟨l, v⟩ := x
    obtain ⟨hl, hxs⟩ : k ≠ l ∧ k ∉ xs.map Prod.fst := by simpa using h
    rw [alter, if_neg (Ne.symm hl), ih hxs]
    rfl

theorem exists_append_of_lookup {v : β} (h : xs.lookup k = some v) :
    ∃ ys zs, xs = ys ++ (k, v) :: zs ∧ k ∉ ys.map Prod.fst := by
  obtain ⟨ys, zs, rfl, hys⟩ := List.lookup_eq_some_iff.mp h
  exact ⟨ys, zs, rfl, lookup_eq_none_iff.mp (List.lookup_eq_none_iff.mpr hys)⟩

theorem lookup_append_cons {ys zs : List (κ × β)} (h : k ∉ ys.map Prod.fst) (v : β) :
    (ys ++ (k, v) :: zs).lookup k = some v := by
  rw [List.lookup_append, lookup_eq_none_iff.mpr h, List.lookup_cons_self, Option.none_or]

theorem lookup_eq_some_of_mem (h : (xs.map Prod.fst).Nodup) {v : β} (hmem : (k, v) ∈ xs) : xs.lookup k = some v := by
  obtain ⟨ys, zs, rfl⟩ := List.append_of_mem hmem
  rw [List.map_append, List.map_cons, List.nodup_middle, List.nodup_cons] at h
  exact lookup_append_cons (fun hk => h.1 (List.mem_append_left _ hk)) v

/-- The value of a key does not depend on that of another one. -/
theorem lookup_append_cons_of_ne {ys zs : List (κ × β)} {l : κ} (h : k ≠ l) (v w : β) :
    (ys ++ (k, v) :: zs).lookup l = (ys ++ (k, w) :: zs).lookup l := by
  rw [List.lookup_append, List.lookup_append, lookup_cons, lookup_cons, if_neg h, if_neg h]

theorem alter_append_cons {ys zs : List (κ × β)} (h : k ∉ ys.map Prod.fst) (v initial : β) (f : β → β) :
    alter k initial f (ys ++ (k, v) :: zs) = ys ++ (k, f v) :: zs := by
  induction ys with
  | nil => simp [alter]
  | cons y ys ih =>
    obtain ⟨l, w⟩ := y
    obtain ⟨hl, hys⟩ : k ≠ l ∧ k ∉ ys.map Prod.fst := by simpa using h
    rw [List.cons_append, alter, if_neg (Ne.symm hl), ih hys]
    rfl

/-- The change of another key leaves the entry in its place, whatever its value. -/
theorem exists_alter_append_cons {ys zs : List (κ × β)} (hk : k ∉ ys.map Prod.fst) {l : κ} (hne : l ≠ k) (initial : β)
    (f : β → β) : ∃ ys' zs', k ∉ ys'.map Prod.fst ∧
      ∀ v, alter l initial f (ys ++ (k, v) :: zs) = ys' ++ (k, v) :: zs' := by
  induction ys with
  | nil => exact ⟨[], alter l initial f zs, by simp, fun v => if_neg hne.symm⟩
  | cons y ys ih =>
    obtain ⟨m, w⟩ := y
    obtain ⟨hm, hys⟩ : k ≠ m ∧ k ∉ ys.map Prod.fst := by simpa using hk
    by_cases hl : m = l
    · refine ⟨(m, f w) :: ys, zs, by simpa [hm] using hys, fun v => ?_⟩
      rw [List.cons_append, alter, if_pos hl]
      rfl
    · obtain ⟨ys', zs', hk', halter⟩ := ih hys
      refine ⟨(m, w) :: ys', zs', by simpa [hm] using hk', fun v => ?_⟩
      rw [List.cons_append, alter, if_neg hl, halter]
      rfl

theorem lookup_append_singleton (h : k ∉ xs.map Prod.fst) (v : β) : (xs ++ [(k, v)]).lookup k = some v :=
  lookup_append_cons h v

theorem lookup_append_singleton_of_ne {l : κ} (h : k ≠ l) (v : β) : (xs ++ [(k, v)]).lookup l = xs.lookup l := by
  rw [List.lookup_append, lookup_cons, if_neg h, List.lookup_nil, Option.or_none]

theorem alter_append_singleton (h : k ∉ xs.map Prod.fst) (v initial : β) (f : β → β) :
    alter k initial f (xs ++ [(k, v)]) = xs ++ [(k, f v)] :=
  alter_append_cons h v initial f

/-- Two changes of a key are one. -/
theorem alter_alter (initial : β) (f g : β → β) :
    alter k initial g (alter k initial f xs) = alter k initial (fun v => g (f v)) xs := by
  induction xs with
  | nil => simp [alter]
  | cons x xs ih =>
    obtain ⟨l, w⟩ := x
    rw [alter, alter]
    split
    next h => rw [alter, if_pos h]
    next h => rw [alter, if_neg h, ih]

/-- A change is the entry of the changed value. -/
theorem alter_eq (initial : β) (f : β → β) :
    alter k initial f xs = alter k (f ((xs.lookup k).getD initial)) (fun _ => f ((xs.lookup k).getD initial)) xs := by
  induction xs with
  | nil => rfl
  | cons x xs ih =>
    obtain ⟨l, v⟩ := x
    rw [alter, alter, lookup_cons]
    split
    · rfl
    · rw [ih]

theorem map_fst_alter (initial : β) (f : β → β) :
    (alter k initial f xs).map Prod.fst =
      if k ∈ xs.map Prod.fst then xs.map Prod.fst else xs.map Prod.fst ++ [k] := by
  induction xs with
  | nil => rfl
  | cons x xs ih =>
    obtain ⟨l, v⟩ := x
    rw [alter]
    split
    next h => simp [h]
    next h =>
      have hmem : k ∈ ((l, v) :: xs).map Prod.fst ↔ k ∈ xs.map Prod.fst := by simp [Ne.symm h]
      rw [List.map_cons, ih]
      simp only [hmem]
      split <;> rfl

theorem nodup_alter (initial : β) (f : β → β) (h : (xs.map Prod.fst).Nodup) :
    ((alter k initial f xs).map Prod.fst).Nodup := by
  rw [map_fst_alter]
  split
  next => exact h
  next hk =>
    refine List.nodup_append.mpr ⟨h, List.pairwise_singleton _ k, fun a ha b hb he => ?_⟩
    cases List.mem_singleton.mp hb
    exact hk (he ▸ ha)

theorem mem_map_fst_alter {l : κ} {initial : β} {f : β → β} (h : l ∈ (alter k initial f xs).map Prod.fst) :
    l ∈ xs.map Prod.fst ∨ l = k := by
  rw [map_fst_alter] at h
  split at h
  · exact .inl h
  · simpa using h

/-! ## Entries in another order -/

/-- The same keys have related values, in whatever order they were first seen. -/
def Alike (R : β → β → Prop) (xs ys : List (κ × β)) : Prop := ∀ k, Option.Rel R (xs.lookup k) (ys.lookup k)

section Alike

variable {R : β → β → Prop} {ys zs : List (κ × β)}

theorem Alike.refl (hR : ∀ v, R v v) (xs : List (κ × β)) : Alike R xs xs := by
  intro k
  cases xs.lookup k with
  | none => exact .none
  | some v => exact .some (hR v)

theorem Alike.trans (hR : ∀ {u v w}, R u v → R v w → R u w) (h : Alike R xs ys) (h' : Alike R ys zs) :
    Alike R xs zs := by
  intro k
  have hk := h k
  have hk' := h' k
  generalize xs.lookup k = x at hk ⊢
  generalize ys.lookup k = y at hk hk'
  generalize zs.lookup k = z at hk' ⊢
  cases hk with
  | none =>
    cases hk' with
    | none => exact .none
  | some huv =>
    cases hk' with
    | some hvw => exact .some (hR huv hvw)

/-- Like changes keep entries alike. -/
theorem Alike.alter (h : Alike R xs ys) {initial initial' : β} (hinitial : R initial initial') {f g : β → β}
    (hfg : ∀ {v w}, R v w → R (f v) (g w)) : Alike R (alter k initial f xs) (alter k initial' g ys) := by
  intro l
  rw [lookup_alter, lookup_alter]
  by_cases hl : k = l
  · rw [if_pos hl, if_pos hl]
    have hk := h k
    generalize xs.lookup k = x at hk ⊢
    generalize ys.lookup k = y at hk ⊢
    cases hk with
    | none => exact .some (hfg hinitial)
    | some hvw => exact .some (hfg hvw)
  · rw [if_neg hl, if_neg hl]
    exact h l

/-- Two changes can be exchanged if they are of different keys, or if they can be exchanged at every value. -/
theorem alike_alter_alter (hR : ∀ v, R v v) {l : κ} (initial : β) {f g : β → β}
    (hfg : k = l → ∀ v, R (g (f v)) (f (g v))) :
    Alike R (alter l initial g (alter k initial f xs)) (alter k initial f (alter l initial g xs)) := by
  intro m
  simp only [lookup_alter]
  by_cases hkl : k = l
  · subst hkl
    by_cases hm : k = m
    · simp [hm, hfg rfl]
    · simp only [if_neg hm]
      exact Alike.refl hR xs m
  · by_cases hm : k = m
    · subst hm
      simp [Ne.symm hkl, hR]
    · by_cases hl : l = m
      · subst hl
        simp [hkl, hR]
      · simp only [if_neg hm, if_neg hl]
        exact Alike.refl hR xs m

/-- Entries that are alike are the same, up to their order and related values. -/
theorem Alike.exists_perm (h : Alike R xs ys) (hxs : (xs.map Prod.fst).Nodup) (hys : (ys.map Prod.fst).Nodup) :
    ∃ zs, List.Forall₂ (fun a b => a.1 = b.1 ∧ R a.2 b.2) xs zs ∧ zs.Perm ys := by
  let partner (e : κ × β) : κ × β := (e.1, (ys.lookup e.1).getD e.2)
  have hpartner : ∀ e ∈ xs, ∃ w, ys.lookup e.1 = some w ∧ R e.2 w := by
    intro e he
    have hk := h e.1
    rw [lookup_eq_some_of_mem hxs he] at hk
    generalize ys.lookup e.1 = y at hk
    cases hk with
    | some hw => exact ⟨_, rfl, hw⟩
  have hkeys : (xs.map partner).map Prod.fst = xs.map Prod.fst := by
    rw [List.map_map]
    rfl
  refine ⟨xs.map partner, ?_, (List.perm_ext_iff_of_nodup ?_ ?_).mpr fun e => ?_⟩
  · rw [List.forall₂_map_right_iff, List.forall₂_same]
    intro e he
    obtain ⟨w, hw, hR⟩ := hpartner e he
    exact ⟨rfl, by simpa [partner, hw] using hR⟩
  · exact List.Nodup.of_map Prod.fst (hkeys ▸ hxs)
  · exact List.Nodup.of_map Prod.fst hys
  · constructor
    · intro he
      obtain ⟨d, hd, rfl⟩ := List.mem_map.mp he
      obtain ⟨w, hw, -⟩ := hpartner d hd
      have heq : partner d = (d.1, w) := by simp [partner, hw]
      rw [heq]
      exact mem_of_lookup hw
    · intro he
      have hk := h e.1
      rw [lookup_eq_some_of_mem hys he] at hk
      generalize hx : xs.lookup e.1 = x at hk
      cases hk with
      | @some v _ hw =>
        refine List.mem_map.mpr ⟨(e.1, v), mem_of_lookup hx, ?_⟩
        simp [partner, lookup_eq_some_of_mem hys he]

/-- What is made of entries that are alike is the same up to its order, if it cannot tell related values apart. -/
theorem Alike.map_perm {γ : Type} {f : κ × β → γ} (hf : ∀ {k v w}, R v w → f (k, v) = f (k, w)) (h : Alike R xs ys)
    (hxs : (xs.map Prod.fst).Nodup) (hys : (ys.map Prod.fst).Nodup) : (xs.map f).Perm (ys.map f) := by
  obtain ⟨zs, hzs, hperm⟩ := h.exists_perm hxs hys
  have heq : xs.map f = zs.map f := by
    clear hperm h hxs hys
    induction hzs with
    | nil => rfl
    | @cons a b xs zs hab _ ih =>
      obtain ⟨k, v⟩ := a
      obtain ⟨l, w⟩ := b
      obtain ⟨rfl, hvw⟩ : k = l ∧ R v w := hab
      rw [List.map_cons, List.map_cons, ih, hf hvw]
  rw [heq]
  exact hperm.map f

end Alike
end MetricGateway.Appearance
