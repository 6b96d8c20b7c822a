import MetricGateway.Proofs.Gateway.PathLabels

/-!
# Paths and lists of labels

A path is the names and values of its labels, joined by slashes, with any number of slashes around them. Reading a path
and joining its labels are inverse to each other up to the slashes around it (`intercalate_of_pathLabels?`), provided
that the first name and the last value are not empty, since nothing tells an empty text at an end from the slashes there
(`pathLabels?_eq_some_iff_of_slashes`). A path is refused exactly if it has an odd number of segments
(`pathLabels?_eq_none_iff`).
-/

namespace MetricGateway

theorem strippedPath_eq_iff {cs path : List Char} : strippedPath cs = path ↔
    (∃ m n, cs = List.replicate m '/' ++ path ++ List.replicate n '/') ∧
      path.head? ≠ some '/' ∧ path.getLast? ≠ some '/' :=
  Text.trimEnds_beq_eq_iff

/-- **Which paths are refused.** -/
theorem pathLabels?_eq_none_iff (cs : List Char) : pathLabels? cs = none ↔
    strippedPath cs ≠ [] ∧ ((strippedPath cs).splitOn '/').length % 2 = 1 := by
  rw [pathLabels?_eq_pairUp, pairUp_eq]
  by_cases hnil : strippedPath cs = []
  · simp [hnil]
  · simp [hnil]

/-- The labels of a path, joined, are the path. -/
theorem intercalate_of_pathLabels? {cs : List Char} {ls : List Label} (h : pathLabels? cs = some ls) :
    ['/'].intercalate (pathSegments ls) = strippedPath cs := by
  rw [pathLabels?_eq_pairUp] at h
  split at h
  next hnil =>
    cases h
    exact hnil.symm
  next =>
    rw [← pairUp_eq_some_iff.mp h, List.intercalate_splitOn]

section Join

variable {ls : List Label} (hne : ls ≠ []) (hslash : ∀ l ∈ ls, '/' ∉ l.name.toList ∧ '/' ∉ l.value.toList)
include hslash

theorem slash_not_mem_of_mem_pathSegments : ∀ t ∈ pathSegments ls, '/' ∉ t := by
  intro t ht
  obtain ⟨l, hl, rfl | rfl⟩ := mem_pathSegments_iff.mp ht
  · exact (hslash l hl).1
  · exact (hslash l hl).2

/-- Joined labels start with a slash exactly if the first name is empty. -/
theorem head?_intercalate_pathSegments :
    (['/'].intercalate (pathSegments ls)).head? = some '/' ↔ (ls.head hne).name = "" := by
  rw [Text.head?_intercalate_eq_iff (slash_not_mem_of_mem_pathSegments hslash)]
  obtain ⟨l, r, rfl⟩ := List.exists_cons_of_ne_nil hne
  simp [pathSegments]

/-- Joined labels end with a slash exactly if the last value is empty. -/
theorem getLast?_intercalate_pathSegments :
    (['/'].intercalate (pathSegments ls)).getLast? = some '/' ↔ (ls.getLast hne).value = "" := by
  rw [Text.getLast?_intercalate_eq_iff (slash_not_mem_of_mem_pathSegments hslash)]
  obtain ⟨r, l, rfl⟩ := (List.eq_nil_or_concat' ls).resolve_left hne
  simp [pathSegments]

/-- **Which lists of labels are read back.** -/
theorem pathLabels?_eq_some_iff_of_slashes (m n : Nat) :
    pathLabels? (List.replicate m '/' ++ ['/'].intercalate (pathSegments ls) ++ List.replicate n '/') = some ls ↔
      (ls.head hne).name ≠ "" ∧ (ls.getLast hne).value ≠ "" := by
  have hends := and_congr (head?_intercalate_pathSegments hne hslash).not
    (getLast?_intercalate_pathSegments hne hslash).not
  refine Iff.trans ?_ hends
  constructor
  · intro h
    exact (strippedPath_eq_iff.mp (intercalate_of_pathLabels? h).symm).2
  · intro h
    have hstripped := strippedPath_eq_iff.mpr ⟨⟨m, n, rfl⟩, h⟩
    obtain ⟨l, r, rfl⟩ := List.exists_cons_of_ne_nil hne
    refine (pathLabels?_of_strippedPath ?_ ?_ (slash_not_mem_of_mem_pathSegments hslash) hstripped).trans
      (pairUp_eq_some_iff.mpr rfl)
    · simp [pathSegments]
    · simp [pathSegments]

end Join

/-- **Path labels are the pairs between slashes.** Let a path be stripped of the slashes around it. It is refused
exactly if something is left that has an odd number of segments; otherwise its labels, joined by slashes, are what is
left. And labels without slashes, joined by slashes and with any number of slashes around them, are read back exactly if
the first name and the last value are not empty. -/
theorem pathLabels_between_slashes (cs : List Char) :
    ((∃ m n, cs = List.replicate m '/' ++ strippedPath cs ++ List.replicate n '/') ∧
        (strippedPath cs).head? ≠ some '/' ∧ (strippedPath cs).getLast? ≠ some '/') ∧
      (pathLabels? cs = none ↔
        strippedPath cs ≠ [] ∧ ((strippedPath cs).splitOn '/').length % 2 = 1) ∧
      (∀ ls, pathLabels? cs = some ls → ['/'].intercalate (pathSegments ls) = strippedPath cs) ∧
      ∀ (ls : List Label) (hne : ls ≠ []), (∀ l ∈ ls, '/' ∉ l.name.toList ∧ '/' ∉ l.value.toList) → ∀ m n,
        (pathLabels? (List.replicate m '/' ++ ['/'].intercalate (pathSegments ls) ++ List.replicate n '/') =
            some ls ↔ (ls.head hne).name ≠ "" ∧ (ls.getLast hne).value ≠ "") :=
  ⟨strippedPath_eq_iff.mp rfl, pathLabels?_eq_none_iff cs, fun _ => intercalate_of_pathLabels?,
    fun _ hne hslash => pathLabels?_eq_some_iff_of_slashes hne hslash⟩

/-- Empty names and values inside a path are kept, and one at its end is lost. -/
theorem pathLabels_between_slashes_emptyName :
    pathLabels? "//job/a//b/".toList = some [⟨"job", "a"⟩, ⟨"", "b"⟩] ∧
      pathLabels? "job/a/zone/".toList = none := by
  obtain ⟨-, hrefused, -, hread⟩ := pathLabels_between_slashes "job/a/zone/".toList
  constructor
  · exact (hread [⟨"job", "a"⟩, ⟨"", "b"⟩] (by decide) (by decide) 2 1).mpr (by decide)
  · exact hrefused.mpr (by decide)

end MetricGateway
