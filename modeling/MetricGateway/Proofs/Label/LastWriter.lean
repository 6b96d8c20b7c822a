import MetricGateway.Proofs.Label.Canonical

/-!
# The last writer of a label

The labels of a push are entered into the set of a metric one after the other. As lists, this removes the own labels
that are overridden, appends each injected label instead of those of its name, and sorts by name at the end
(`perm_gather`, `toList_eq_sortBy`). The ignored names are dropped whichever of the two they come from, so making labels
canonical again changes nothing (`canonical_last_writer_wins`).
-/

namespace MetricGateway

namespace Text

theorem lower_eq_nil_iff {cs : List Char} : lower cs = [] ↔ cs = [] := by
  cases cs with
  | nil => simp [lower, lowerFrom]
  | cons c r =>
    simp only [lower, lowerFrom]
    split
    · simp
    · split <;> simp

end Text

/-- A name is ignored if it is one of the given names but for blanks around that and for upper and lower case. A name of
blanks alone ignores nothing. -/
def IsIgnored (names : List String) (name : String) : Prop :=
  ∃ n ∈ names, Text.trim n.toList ≠ [] ∧ Text.lower name.toList = Text.lower (Text.trim n.toList)

instance (names : List String) (name : String) : Decidable (IsIgnored names name) :=
  inferInstanceAs (Decidable (∃ n ∈ names, _))

theorem IgnoredNames.contains_ofList_iff {names : List String} {name : String} :
    (ofList names).contains name = true ↔ IsIgnored names name := by
  simp only [contains, ofList, List.contains_iff_mem, List.mem_filter, List.mem_map, decide_eq_true_eq]
  constructor
  · rintro ⟨⟨n, hn, heq⟩, hne⟩
    exact ⟨n, hn, fun hnil => hne (heq ▸ Text.lower_eq_nil_iff.mpr hnil), heq.symm⟩
  · rintro ⟨n, hn, hne, heq⟩
    rw [heq]
    exact ⟨⟨n, hn, rfl⟩, fun hnil => hne (Text.lower_eq_nil_iff.mp hnil)⟩

/-- Entering an element puts it among the elements with other keys. -/
theorem Sorted.perm_put {α : Type} {key : α → String} {x : α} {ys : List α} (h : Increasing key ys) :
    (put key x ys).Perm (ys.filter (key · ≠ key x) ++ [x]) := by
  have hall : ∀ {zs : List α}, (∀ z ∈ zs, key x < key z) → zs.filter (key · ≠ key x) = zs := fun hlt =>
    List.filter_eq_self.mpr fun z hz => decide_eq_true (String.ne_of_lt (hlt z hz)).symm
  induction h with
  | nil => exact .refl _
  | @cons y ys hy hys ih =>
    rw [put]
    split
    next hxy =>
      have hlt : ∀ z ∈ y :: ys, key x < key z :=
        List.forall_mem_cons.mpr ⟨hxy, fun z hz => String.lt_trans hxy (hy z hz)⟩
      rw [hall hlt]
      exact (List.perm_append_singleton x _).symm
    next hxy =>
      split
      next he =>
        rw [List.filter_cons_of_neg (by simp [he]), hall fun z hz => he ▸ hy z hz]
        exact (List.perm_append_singleton x _).symm
      next he =>
        rw [List.filter_cons_of_pos (by simpa using Ne.symm he)]
        exact ih.cons y

namespace LabelSet

/-- The labels of a set are its names with their values. -/
theorem mem_toList_iff {s : LabelSet} {l : Label} : l ∈ s.toList ↔ s.get? l.name = some l.value := by
  rw [get?, Option.map_eq_some_iff]
  constructor
  · intro hl
    exact ⟨l, (Sorted.lookup?_eq_some_iff s.increasing.ne).mpr ⟨hl, rfl⟩, rfl⟩
  · rintro ⟨m, hm, hvalue⟩
    obtain ⟨hm, hname⟩ := Sorted.mem_of_lookup? hm
    cases m
    cases hname
    cases hvalue
    exact hm

/-- Sets in which every name has the same value are equal. -/
theorem ext_get? {s t : LabelSet} (h : ∀ name, s.get? name = t.get? name) : s = t := by
  refine ext_mem fun l => ?_
  rw [mem_toList_iff, mem_toList_iff, h]

/-- A label behind the others, instead of those of its name. -/
def putLast (ls : List Label) (l : Label) : List Label := ls.filter (·.name ≠ l.name) ++ [l]

/-- The own labels that are not overridden, and behind them the injected ones, each instead of those of its name. -/
def gather (s : LabelSet) (injected : List Label) : List Label :=
  injected.foldl putLast (s.toList.filter fun l => !(injected.map Label.name).contains l.name)

theorem perm_insert (s : LabelSet) (l : Label) : (s.insert l).toList.Perm (putLast s.toList l) :=
  Sorted.perm_put s.increasing

theorem perm_insertAll {ls : List Label} {s : LabelSet} (h : ls.Perm s.toList) (injected : List Label) :
    (injected.foldl putLast ls).Perm (s.insertAll injected).toList := by
  induction injected generalizing ls s with
  | nil => exact h
  | cons l injected ih =>
    exact ih (((h.filter _).append_right _).trans (s.perm_insert l).symm)

theorem lastValue?_eq_none_iff {name : String} {ls : List Label} :
    lastValue? name ls = none ↔ name ∉ ls.map Label.name := by
  simp [lastValue?]

theorem perm_gather (s : LabelSet) (injected : List Label) :
    (s.gather injected).Perm (s.insertAll injected).toList := by
  let kept := s.filter fun l => !(injected.map Label.name).contains l.name
  have hkept : kept.insertAll injected = s.insertAll injected := by
    refine ext_get? fun name => ?_
    rw [get?_insertAll, get?_insertAll, get?_filter (p := fun n => !(injected.map Label.name).contains n)]
    cases hlast : lastValue? name injected with
    | none =>
      have hfree : (injected.map Label.name).contains name = false := by
        simpa using lastValue?_eq_none_iff.mp hlast
      rw [hfree]
      rfl
    | some v => rfl
  exact hkept ▸ perm_insertAll (s := kept) (.refl _) injected

theorem canonical_canonical (s : LabelSet) (injected : List Label) (ignored : IgnoredNames) :
    (s.canonical injected ignored).canonical injected ignored = s.canonical injected ignored := by
  refine ext_get? fun name => ?_
  rw [get?_canonical, get?_canonical]
  split
  · rfl
  · cases lastValue? name injected <;> rfl

/-- **Canonical labels are a map in which the last writer wins.** -/
theorem canonical_last_writer_wins (s : LabelSet) (injected : List Label) (ignored : List String) :
    let c := s.canonical injected (.ofList ignored)
    c.toList = Sorted.sortBy (compareOn Label.name)
        ((s.gather injected).filter fun l => ¬ IsIgnored ignored l.name) ∧
      Sorted.Increasing Label.name c.toList ∧
      (∀ name, c.get? name =
        if IsIgnored ignored name then none else (lastValue? name injected).or (s.get? name)) ∧
      c.canonical injected (.ofList ignored) = c := by
  intro c
  have hcontains : ∀ name, (IgnoredNames.ofList ignored).contains name = decide (IsIgnored ignored name) := fun name =>
    Bool.eq_iff_iff.mpr (IgnoredNames.contains_ofList_iff.trans decide_eq_true_iff.symm)
  refine ⟨?_, c.increasing, fun name => ?_, s.canonical_canonical injected _⟩
  · have hkept : (fun l : Label => decide ¬ IsIgnored ignored l.name) =
        fun l => !(IgnoredNames.ofList ignored).contains l.name := by
      funext l
      rw [hcontains, decide_not]
    rw [hkept]
    exact toList_eq_sortBy ((s.perm_gather injected).filter _)
  · rw [get?_canonical, hcontains]
    simp only [decide_eq_true_eq]

end LabelSet
end MetricGateway
