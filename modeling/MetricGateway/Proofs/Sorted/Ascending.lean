import MetricGateway.Sorted

/-!
# Lists in strictly ascending order of a key

A list is `Ascending key` if the keys strictly increase in the order of their type; then every key occurs at most once,
and `lookup? key k` is the only element with the key `k` (`lookup?_eq_some_iff`).

- A sorted list without a repeated key is ascending and holds the same elements (`ascending_sortBy`,
  `lookup?_sortBy`).
- The union of two ascending lists is ascending (`ascending_unionBy`) and holds for every key what `unite` makes of
  the two elements with that key (`lookup?_unionBy`, `mem_unionBy_iff`).
- Lists with the same keys are united element by element (`unionBy_eq_zipWith`).
-/

namespace MetricGateway.Sorted

variable {α κ : Type} {key : α → κ}

/-! ## Looking up -/

section Lookup

variable [DecidableEq κ]

@[simp] theorem lookup?_nil (k : κ) : lookup? key k [] = none := rfl

theorem lookup?_cons (k : κ) (x : α) (xs : List α) :
    lookup? key k (x :: xs) = if key x = k then some x else lookup? key k xs := by
  by_cases h : key x = k <;> simp [lookup?, h]

theorem mem_of_lookup? {k : κ} {x : α} {xs : List α} (h : lookup? key k xs = some x) : x ∈ xs ∧ key x = k :=
  ⟨List.mem_of_find?_eq_some h, by simpa using List.find?_some h⟩

theorem lookup?_eq_none_iff {k : κ} {xs : List α} : lookup? key k xs = none ↔ ∀ x ∈ xs, key x ≠ k := by
  simp [lookup?]

/-- Where no key occurs twice, an element is found under its key. -/
theorem lookup?_eq_some_iff {k : κ} {x : α} {xs : List α} (h : xs.Pairwise fun a b => key a ≠ key b) :
    lookup? key k xs = some x ↔ x ∈ xs ∧ key x = k := by
  refine ⟨mem_of_lookup?, fun ⟨hx, hk⟩ => ?_⟩
  induction h with
  | nil => cases hx
  | @cons y ys hy _ ih =>
    rw [lookup?_cons]
    rcases List.mem_cons.mp hx with rfl | hx'
    · rw [if_pos hk]
    · rw [if_neg fun he => hy x hx' (he.trans hk.symm)]
      exact ih ⟨hx', hk⟩ hx'

/-- Two lists without repeated keys and with the same elements hold the same for every key. -/
theorem lookup?_congr {k : κ} {xs ys : List α} (hx : xs.Pairwise fun a b => key a ≠ key b)
    (hy : ys.Pairwise fun a b => key a ≠ key b) (h : ∀ z, z ∈ xs ↔ z ∈ ys) :
    lookup? key k xs = lookup? key k ys := by
  ext z
  rw [lookup?_eq_some_iff hx, lookup?_eq_some_iff hy, h]

theorem lookup?_filter {k : κ} {p : α → Bool} {xs : List α} (h : xs.Pairwise fun a b => key a ≠ key b) :
    lookup? key k (xs.filter p) = (lookup? key k xs).filter p := by
  ext z
  rw [lookup?_eq_some_iff (h.filter p), Option.filter_eq_some_iff, lookup?_eq_some_iff h, List.mem_filter,
    and_right_comm]

end Lookup

/-! ## Ascending lists -/

section Order

variable [Ord κ]

/-- The keys of the list strictly increase in their order. -/
abbrev Ascending (key : α → κ) (xs : List α) : Prop := xs.Pairwise fun a b => compare (key a) (key b) = .lt

theorem Ascending.ne [Std.ReflOrd κ] {xs : List α} (h : Ascending key xs) : xs.Pairwise fun a b => key a ≠ key b := by
  refine h.imp fun {a b} hab he => ?_
  rw [he, Std.ReflOrd.compare_self] at hab
  cases hab

/-- A key below the first one of an ascending list lies below all of them. -/
theorem Ascending.lt_of_lt_head [Std.TransOrd κ] {k : κ} {x : α} {xs : List α} (h : Ascending key (x :: xs))
    (hk : compare k (key x) = .lt) : ∀ z ∈ x :: xs, compare k (key z) = .lt := by
  intro z hz
  rcases List.mem_cons.mp hz with rfl | hz
  · exact hk
  · exact Std.TransCmp.lt_trans hk (List.rel_of_pairwise_cons h hz)

/-- A key below all keys of a list is not among them. -/
theorem lookup?_eq_none_of_lt [DecidableEq κ] [Std.ReflOrd κ] {k : κ} {xs : List α}
    (h : ∀ x ∈ xs, compare k (key x) = .lt) : lookup? key k xs = none := by
  refine lookup?_eq_none_iff.mpr fun x hx he => ?_
  have hlt := h x hx
  rw [he, Std.ReflOrd.compare_self] at hlt
  cases hlt

end Order

/-! ## Sorting -/

section Sorting

variable {cmp : α → α → Ordering} [Std.TransCmp cmp]

/-- Two elements that do not compare equal can be inserted in either order. -/
theorem insertBy_comm {x y : α} (h : cmp x y ≠ .eq) (zs : List α) :
    insertBy cmp x (insertBy cmp y zs) = insertBy cmp y (insertBy cmp x zs) := by
  have hxy : (cmp x y).isLE = !(cmp y x).isLE := by
    have hswap : cmp y x = (cmp x y).swap := Std.OrientedCmp.eq_swap
    rw [hswap]
    cases hc : cmp x y <;> simp_all
  induction zs with
  | nil =>
    simp only [insertBy, hxy]
    cases (cmp y x).isLE <;> rfl
  | cons z zs ih =>
    rw [insertBy, insertBy]
    split
    next hyz =>
      split
      next hxz =>
        rw [insertBy, insertBy, if_pos hxz, insertBy, insertBy, if_pos hyz, hxy]
        cases (cmp y x).isLE <;> rfl
      next hxz =>
        -- `y` is not above `z`, and `x` is
        have hyx : (cmp x y).isLE = false := by
          rw [Bool.eq_false_iff]
          exact fun hle => hxz (Std.TransCmp.isLE_trans hle hyz)
        rw [insertBy, hyx, if_neg Bool.false_ne_true, insertBy, if_neg hxz, insertBy, if_pos hyz]
    next hyz =>
      split
      next hxz =>
        have hle : (cmp y x).isLE = false := by
          rw [Bool.eq_false_iff]
          exact fun hle => hyz (Std.TransCmp.isLE_trans hle hxz)
        rw [insertBy, if_pos hxz, insertBy, hle, if_neg Bool.false_ne_true, insertBy, if_neg hyz]
      next hxz => rw [insertBy, if_neg hxz, insertBy, if_neg hyz, ih]

theorem sortBy_eq_self {xs : List α} (h : xs.Pairwise fun a b => (cmp a b).isLE) : sortBy cmp xs = xs := by
  rw [sortBy_eq_mergeSort, List.mergeSort_of_pairwise h]

/-- A map that does not change the comparison commutes with sorting. -/
theorem sortBy_map {g : α → α} (hg : ∀ x y, cmp (g x) (g y) = cmp x y) (xs : List α) :
    sortBy cmp (xs.map g) = (sortBy cmp xs).map g := by
  rw [sortBy_eq_mergeSort, sortBy_eq_mergeSort]
  exact (List.map_mergeSort fun x _ y _ => congrArg Ordering.isLE (hg x y).symm).symm

theorem pairwise_ne_sortBy {xs : List α} (h : xs.Pairwise fun a b => key a ≠ key b) :
    (sortBy cmp xs).Pairwise fun a b => key a ≠ key b :=
  (perm_sortBy xs).symm.pairwise h fun hab => hab.symm

theorem ascending_sortBy [Ord κ] [Std.TransOrd κ] [Std.LawfulEqOrd κ] {xs : List α}
    (h : xs.Pairwise fun a b => key a ≠ key b) : Ascending key (sortBy (compareOn key) xs) := by
  refine ((pairwise_sortBy xs).and (pairwise_ne_sortBy h)).imp fun {a b} hab => ?_
  obtain ⟨hle, hne⟩ := hab
  rcases Ordering.isLE_iff_eq_lt_or_eq_eq.mp hle with hlt | heq
  · exact hlt
  · exact absurd (Std.LawfulEqOrd.eq_of_compare heq) hne

/-- Sorting keeps what a list without repeated keys holds for a key. -/
theorem lookup?_sortBy [DecidableEq κ] {k : κ} {xs : List α} (h : xs.Pairwise fun a b => key a ≠ key b) :
    lookup? key k (sortBy cmp xs) = lookup? key k xs :=
  lookup?_congr (pairwise_ne_sortBy h) h fun _ => mem_sortBy

end Sorting

/-! ## Union -/

section Union

variable [Ord κ] {both : α → α → Option α}

/-- What a union makes of the elements that two lists hold for a key. -/
def unite (both : α → α → Option α) : Option α → Option α → Option α
  | none, y => y
  | some x, none => some x
  | some x, some y => both x y

/-- An element of a union is one of either list, or comes of two elements with the same key. -/
theorem mem_unionBy [Std.LawfulEqOrd κ] {z : α} {xs ys : List α} (h : z ∈ unionBy (compareOn key) both xs ys) :
    z ∈ xs ∨ z ∈ ys ∨ ∃ x ∈ xs, ∃ y ∈ ys, key x = key y ∧ both x y = some z := by
  fun_induction unionBy (compareOn key) both xs ys with
  | case1 ys => exact .inr (.inl h)
  | case2 xs hxs => exact .inl h
  | case3 x xs y ys hxy ih => grind
  | case4 x xs y ys hxy ih => grind
  | case5 x xs y ys hxy ih =>
    have hk : key x = key y := Std.LawfulEqOrd.eq_of_compare hxy
    rcases List.mem_append.mp h with h | h
    · exact .inr (.inr ⟨x, List.mem_cons_self, y, List.mem_cons_self, hk, by simpa using h⟩)
    · grind

/-- Where two elements of one key always become one of this key, the keys of a union are those of both lists. -/
theorem mem_map_unionBy_iff [Std.LawfulEqOrd κ] {xs ys : List α}
    (hb : ∀ x ∈ xs, ∀ y ∈ ys, key x = key y → ∃ z, both x y = some z ∧ key z = key x) (k : κ) :
    k ∈ (unionBy (compareOn key) both xs ys).map key ↔ k ∈ xs.map key ∨ k ∈ ys.map key := by
  fun_induction unionBy (compareOn key) both xs ys with
  | case1 ys => simp
  | case2 xs hxs => simp
  | case3 x xs y ys hxy ih =>
    have ih := ih fun z hz => hb z (List.mem_cons_of_mem _ hz)
    simp only [List.map_cons, List.mem_cons] at ih ⊢
    rw [ih, or_assoc]
  | case4 x xs y ys hxy ih =>
    have ih := ih fun z hz w hw => hb z hz w (List.mem_cons_of_mem _ hw)
    simp only [List.map_cons, List.mem_cons] at ih ⊢
    rw [ih, or_left_comm]
  | case5 x xs y ys hxy ih =>
    have hk : key x = key y := Std.LawfulEqOrd.eq_of_compare hxy
    obtain ⟨z, hz, hzk⟩ := hb x List.mem_cons_self y List.mem_cons_self hk
    have ih := ih fun z hz w hw => hb z (List.mem_cons_of_mem _ hz) w (List.mem_cons_of_mem _ hw)
    simp only [hz, hzk, ← hk, Option.toList_some, List.singleton_append, List.map_cons, List.mem_cons] at ih ⊢
    rw [ih, or_or_or_comm, or_self]

/-- Where all keys of two lists are greater than a key, so are those of the union. -/
theorem lt_of_mem_unionBy [Std.LawfulEqOrd κ] (hb : ∀ x y z, both x y = some z → key z = key x) {k : κ}
    {xs ys : List α} (hx : ∀ x ∈ xs, compare k (key x) = .lt) (hy : ∀ y ∈ ys, compare k (key y) = .lt) {z : α}
    (h : z ∈ unionBy (compareOn key) both xs ys) : compare k (key z) = .lt := by
  rcases mem_unionBy h with h | h | ⟨x, hx', y, hy', hk, hz⟩
  · exact hx z h
  · exact hy z h
  · rw [hb x y z hz]
    exact hx x hx'

/-- Lists with the same keys are united element by element. -/
theorem unionBy_eq_zipWith [Std.ReflOrd κ] {f : α → α → α} {xs ys : List α} (h : xs.map key = ys.map key) :
    unionBy (compareOn key) (fun x y => some (f x y)) xs ys = List.zipWith f xs ys := by
  induction xs generalizing ys with
  | nil => rw [List.map_eq_nil_iff.mp h.symm, unionBy, List.zipWith_nil_left]
  | cons x xs ih =>
    obtain ⟨y, ys, rfl, hkey, hkeys⟩ := List.map_eq_cons_iff.mp h.symm
    have hxy : compareOn key x y = .eq := by
      rw [compareOn, hkey]
      exact Std.ReflOrd.compare_self
    rw [unionBy, hxy, List.zipWith_cons_cons, ih hkeys.symm]
    rfl

theorem ascending_unionBy [Std.TransOrd κ] [Std.LawfulEqOrd κ] (hb : ∀ x y z, both x y = some z → key z = key x)
    {xs ys : List α} (hx : Ascending key xs) (hy : Ascending key ys) :
    Ascending key (unionBy (compareOn key) both xs ys) := by
  fun_induction unionBy (compareOn key) both xs ys with
  | case1 ys => exact hy
  | case2 xs hxs => exact hx
  | case3 x xs y ys hxy ih =>
    obtain ⟨hx₁, hx₂⟩ := List.pairwise_cons.mp hx
    exact .cons (fun z hz => lt_of_mem_unionBy hb hx₁ (hy.lt_of_lt_head hxy) hz) (ih hx₂ hy)
  | case4 x xs y ys hxy ih =>
    obtain ⟨hy₁, hy₂⟩ := List.pairwise_cons.mp hy
    have hyx : compare (key y) (key x) = .lt := Std.OrientedCmp.lt_of_gt hxy
    exact .cons (fun z hz => lt_of_mem_unionBy hb (hx.lt_of_lt_head hyx) hy₁ hz) (ih hx hy₂)
  | case5 x xs y ys hxy ih =>
    obtain ⟨hx₁, hx₂⟩ := List.pairwise_cons.mp hx
    obtain ⟨hy₁, hy₂⟩ := List.pairwise_cons.mp hy
    have hk : key x = key y := Std.LawfulEqOrd.eq_of_compare hxy
    refine List.pairwise_append.mpr ⟨by cases both x y <;> simp, ih hx₂ hy₂, fun z hz w hw => ?_⟩
    rw [hb x y z (by simpa using hz)]
    exact lt_of_mem_unionBy hb hx₁ (hk ▸ hy₁) hw

/-- The union of two ascending lists holds for a key what becomes of the elements that the lists hold for it. -/
theorem lookup?_unionBy [DecidableEq κ] [Std.TransOrd κ] [Std.LawfulEqOrd κ]
    (hb : ∀ x y z, both x y = some z → key z = key x) {k : κ} {xs ys : List α} (hx : Ascending key xs)
    (hy : Ascending key ys) :
    lookup? key k (unionBy (compareOn key) both xs ys) = unite both (lookup? key k xs) (lookup? key k ys) := by
  fun_induction unionBy (compareOn key) both xs ys with
  | case1 ys => rfl
  | case2 xs hxs => cases lookup? key k xs <;> rfl
  | case3 x xs y ys hxy ih =>
    rw [lookup?_cons k x, lookup?_cons k x, ih hx.of_cons hy]
    split
    next hk =>
      -- the key of `x` lies below all keys of the other list
      have hnone : lookup? key k (y :: ys) = none := lookup?_eq_none_of_lt (hk ▸ hy.lt_of_lt_head hxy)
      rw [hnone, unite]
    next => rfl
  | case4 x xs y ys hxy ih =>
    have hyx : compare (key y) (key x) = .lt := Std.OrientedCmp.lt_of_gt hxy
    rw [lookup?_cons k y, lookup?_cons k y, ih hx hy.of_cons]
    split
    next hk =>
      have hnone : lookup? key k (x :: xs) = none := lookup?_eq_none_of_lt (hk ▸ hx.lt_of_lt_head hyx)
      rw [hnone, unite]
    next => rfl
  | case5 x xs y ys hxy ih =>
    have hk : key x = key y := Std.LawfulEqOrd.eq_of_compare hxy
    have hx₁ : ∀ z ∈ xs, compare (key x) (key z) = .lt := fun z hz => List.rel_of_pairwise_cons hx hz
    have hy₁ : ∀ z ∈ ys, compare (key x) (key z) = .lt := fun z hz => hk ▸ List.rel_of_pairwise_cons hy hz
    have ih := ih hx.of_cons hy.of_cons
    rw [lookup?_cons k x, lookup?_cons k y, ← hk]
    split
    next he =>
      subst he
      rw [lookup?_eq_none_of_lt hx₁, lookup?_eq_none_of_lt hy₁] at ih
      cases hxy' : both x y with
      | none => simpa [unite, hxy'] using ih
      | some z => simp [unite, hxy', lookup?_cons, hb x y z hxy']
    next he =>
      cases hxy' : both x y with
      | none => simpa using ih
      | some z => simpa [lookup?_cons, hb x y z hxy', he] using ih

/-- What is in the union of two ascending lists: what only one of them has a key for, and what becomes of two elements
with one key. -/
theorem mem_unionBy_iff [DecidableEq κ] [Std.TransOrd κ] [Std.LawfulEqOrd κ]
    (hb : ∀ x y z, both x y = some z → key z = key x) {xs ys : List α} (hx : Ascending key xs)
    (hy : Ascending key ys) {z : α} :
    z ∈ unionBy (compareOn key) both xs ys ↔
      (z ∈ xs ∧ ∀ y ∈ ys, key y ≠ key z) ∨ (z ∈ ys ∧ ∀ x ∈ xs, key x ≠ key z) ∨
        ∃ x ∈ xs, ∃ y ∈ ys, key x = key y ∧ both x y = some z := by
  have hfound : z ∈ unionBy (compareOn key) both xs ys ↔
      unite both (lookup? key (key z) xs) (lookup? key (key z) ys) = some z := by
    rw [← lookup?_unionBy hb hx hy, lookup?_eq_some_iff (ascending_unionBy hb hx hy).ne]
    exact ⟨fun h => ⟨h, rfl⟩, fun h => h.1⟩
  rw [hfound]
  constructor
  · intro h
    cases hcx : lookup? key (key z) xs with
    | none =>
      rw [hcx] at h
      exact .inr (.inl ⟨(mem_of_lookup? h).1, lookup?_eq_none_iff.mp hcx⟩)
    | some x =>
      obtain ⟨hxs, hkx⟩ := mem_of_lookup? hcx
      cases hcy : lookup? key (key z) ys with
      | none =>
        rw [hcx, hcy] at h
        cases h
        exact .inl ⟨hxs, lookup?_eq_none_iff.mp hcy⟩
      | some y =>
        obtain ⟨hys, hky⟩ := mem_of_lookup? hcy
        rw [hcx, hcy] at h
        exact .inr (.inr ⟨x, hxs, y, hys, hkx.trans hky.symm, h⟩)
  · rintro (⟨hz, hnone⟩ | ⟨hz, hnone⟩ | ⟨x, hxs, y, hys, hkey, hz⟩)
    · rw [(lookup?_eq_some_iff hx.ne).mpr ⟨hz, rfl⟩, lookup?_eq_none_iff.mpr hnone, unite]
    · rw [(lookup?_eq_some_iff hy.ne).mpr ⟨hz, rfl⟩, lookup?_eq_none_iff.mpr hnone, unite]
    · have hkx : key x = key z := (hb x y z hz).symm
      rw [(lookup?_eq_some_iff hx.ne).mpr ⟨hxs, hkx⟩, (lookup?_eq_some_iff hy.ne).mpr ⟨hys, hkey ▸ hkx⟩]
      exact hz

end Union

end MetricGateway.Sorted
