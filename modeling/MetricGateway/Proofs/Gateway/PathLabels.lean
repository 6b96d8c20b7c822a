import Mathlib.Data.List.Forall2
import MetricGateway.Gateway.PathLabels
import MetricGateway.Proofs.Text.Pieces
import MetricGateway.Proofs.Text.Utf8

/-!
# What a path spells

A path is decoded as one text and then split at its slashes. Its raw segments spell names and values as well, each
segment decoded on its own (`spelledPairs`). Decoding goes through a raw slash (`decodedPath?_append`), so the whole is
decoded into the decoded segments (`decodedPath?_intercalate`); but a segment may be decoded into a text with a slash,
where the path is split once more, or into bytes that are not UTF-8, for which the whole path is lost. The labels of a
path are what its segments spell exactly if neither happens (`pairs_eq_spelledPairs_iff`). What is left of a decoded
path without the slashes around it is cut into pieces, and these are paired up (`pathLabels?_eq_pairUp`).
-/

namespace MetricGateway

/-! ## Decoding -/

/-- A slash is no hexadecimal digit. -/
theorem hexByte?_slash_left (lo : UInt8) : hexByte? 47 lo = none := rfl

theorem hexByte?_slash_right (hi : UInt8) : hexByte? hi 47 = none := by
  unfold hexByte?
  split
  next _ _ _ h => cases h
  next => rfl

theorem percentDecode_cons_of_ne {b : UInt8} (hb : b ≠ 37) (r : List UInt8) :
    percentDecode (b :: r) = b :: percentDecode r := by
  rw [percentDecode]
  intro hi lo r' h
  exact absurd h hb

/-- The digits behind a percent sign lie on one side of a slash. -/
theorem percentDecode_append (xs ys : List UInt8) :
    percentDecode (xs ++ 47 :: ys) = percentDecode xs ++ 47 :: percentDecode ys := by
  have hslash : percentDecode (47 :: ys) = 47 :: percentDecode ys := percentDecode_cons_of_ne (by decide) ys
  fun_induction percentDecode xs with
  | case1 hi lo r b hb ih => simp only [List.cons_append, percentDecode, hb, ih]
  | case2 hi lo r hb ih =>
    simp only [List.cons_append] at ih
    simp only [List.cons_append, percentDecode, hb, ih]
  | case3 b r hno ih =>
    by_cases hb : b = 37
    · subst hb
      -- at most one digit is left in front of the slash
      rcases r with _ | ⟨hi, _ | ⟨lo, r⟩⟩
      · cases ys with
        | nil => rfl
        | cons lo ys => simp only [List.nil_append, List.cons_append, percentDecode, hexByte?_slash_left, hslash]
      · have hhi := ih
        simp only [List.cons_append, List.nil_append] at hhi ⊢
        simp only [percentDecode, hexByte?_slash_right, hhi, List.cons_append]
      · exact absurd rfl (hno hi lo r rfl)
    · rw [List.cons_append, percentDecode_cons_of_ne hb, ih, List.cons_append]
  | case4 => exact hslash

theorem decodedPath?_append (a b : List Char) :
    decodedPath? (a ++ '/' :: b) = (decodedPath? a).bind fun s => (decodedPath? b).map fun t => s ++ '/' :: t := by
  have hencode : Utf8.encode (a ++ '/' :: b) = Utf8.encode a ++ 47 :: Utf8.encode b := by
    simp [Utf8.encode]
    rfl
  rw [decodedPath?, hencode, percentDecode_append, Utf8.decode?_append (by decide)]
  rfl

theorem percentDecode_ne_nil {bs : List UInt8} (h : bs ≠ []) : percentDecode bs ≠ [] := by
  fun_cases percentDecode bs <;> simp_all

theorem decodedPath?_ne_nil {a t : List Char} (ha : a ≠ []) (h : decodedPath? a = some t) : t ≠ [] := by
  refine Utf8.ne_nil_of_decode? (percentDecode_ne_nil ?_) h
  obtain ⟨c, r, rfl⟩ := List.exists_cons_of_ne_nil ha
  have hc : Utf8.encodeChar c ≠ [] := by
    unfold Utf8.encodeChar
    dsimp only
    split
    · simp
    · split
      · simp
      · split <;> simp
  simp [Utf8.encode, hc]

/-- The second list holds what the segments of the first one are decoded into. -/
abbrev Decoded (segments ts : List (List Char)) : Prop := List.Forall₂ (fun s t => decodedPath? s = some t) segments ts

/-- Segments that are all decoded into texts with a property are decoded into a list of such texts. -/
theorem exists_decoded {p : List Char → Prop} {segments : List (List Char)}
    (h : ∀ s ∈ segments, ∃ t, decodedPath? s = some t ∧ p t) : ∃ ts, Decoded segments ts ∧ ∀ t ∈ ts, p t := by
  induction segments with
  | nil => exact ⟨[], .nil, fun _ ht => by cases ht⟩
  | cons s segments ih =>
    obtain ⟨⟨t, ht, hp⟩, hrest⟩ := List.forall_mem_cons.mp h
    obtain ⟨ts, hts, hps⟩ := ih hrest
    exact ⟨t :: ts, .cons ht hts, List.forall_mem_cons.mpr ⟨hp, hps⟩⟩

theorem decodedPath?_intercalate {segments ts : List (List Char)} (h : Decoded segments ts) (hne : segments ≠ []) :
    decodedPath? (['/'].intercalate segments) = some (['/'].intercalate ts) := by
  induction h with
  | nil => exact absurd rfl hne
  | @cons s t segments ts hst hrest ih =>
    cases hrest with
    | nil => rwa [List.intercalate_singleton, List.intercalate_singleton]
    | @cons s' t' segments ts hst' hrest =>
      rw [List.intercalate_cons_cons, List.intercalate_cons_cons, List.append_assoc, List.append_assoc,
        List.singleton_append, List.singleton_append, decodedPath?_append, hst, ih (by simp)]
      rfl

/-! ## Pairs -/

/-- Each name at an even place with the value behind it; a last name without a value is left out. -/
def labelsOf : List (List Char) → List Label
  | name :: value :: r => ⟨String.ofList name, String.ofList value⟩ :: labelsOf r
  | _ => []

theorem pairUp_eq (ps : List (List Char)) : pairUp ps = if ps.length % 2 = 0 then some (labelsOf ps) else none := by
  fun_induction pairUp ps with
  | case1 => rfl
  | case2 => rfl
  | case3 name value r ih =>
    rw [ih, labelsOf, List.length_cons, List.length_cons, Nat.add_assoc, Nat.add_mod_right]
    split <;> rfl

/-- The names and the values of labels, in turn. -/
def pathSegments (ls : List Label) : List (List Char) := ls.flatMap fun l => [l.name.toList, l.value.toList]

/-- Pairing up undoes taking labels apart. -/
theorem pairUp_eq_some_iff {ps : List (List Char)} {ls : List Label} :
    pairUp ps = some ls ↔ ps = pathSegments ls := by
  constructor
  · intro h
    fun_induction pairUp ps generalizing ls with
    | case1 =>
      cases h
      rfl
    | case2 => cases h
    | case3 name value r ih =>
      obtain ⟨ls', hls', rfl⟩ := Option.map_eq_some_iff.mp h
      rw [ih hls']
      simp [pathSegments]
  · rintro rfl
    induction ls with
    | nil => rfl
    | cons l ls ih =>
      show (pairUp (pathSegments ls)).map _ = _
      rw [ih]
      simp

theorem mem_pathSegments_iff {ls : List Label} {t : List Char} :
    t ∈ pathSegments ls ↔ ∃ l ∈ ls, t = l.name.toList ∨ t = l.value.toList := by
  simp [pathSegments]

/-- What a segment spells: its decoded text, if it is UTF-8. -/
def spelled? (segment : List Char) : Option String := (decodedPath? segment).map String.ofList

/-- The names and the values that the segments of a path spell in turn. -/
def spelledPairs : List (List Char) → List (Option String × Option String)
  | name :: value :: r => (spelled? name, spelled? value) :: spelledPairs r
  | _ => []

/-- A label as a pair that is spelled. -/
def Label.pair (l : Label) : Option String × Option String := (some l.name, some l.value)

theorem pairUp_of_decoded : ∀ {segments ts : List (List Char)}, Decoded segments ts → segments.length % 2 = 0 →
    ∃ ls, pairUp ts = some ls ∧ ls.map Label.pair = spelledPairs segments
  | [], _, .nil, _ => ⟨[], rfl, rfl⟩
  | [_], _, .cons _ .nil, heven => by simp at heven
  | name :: value :: segments, _, .cons hname (.cons hvalue h), heven => by
    have hrest : segments.length % 2 = 0 := by
      simp only [List.length_cons] at heven
      omega
    obtain ⟨ls, hls, hpairs⟩ := pairUp_of_decoded h hrest
    refine ⟨_ :: ls, by rw [pairUp, hls]; rfl, ?_⟩
    rw [List.map_cons, hpairs, spelledPairs, spelled?, spelled?, hname, hvalue]
    rfl

/-- Segments that spell labels are the names and the values of these labels. -/
theorem exists_label_of_spelledPairs : ∀ {segments : List (List Char)} {ls : List Label},
    ls.map Label.pair = spelledPairs segments → segments.length % 2 = 0 → ∀ s ∈ segments,
      ∃ l ∈ ls, decodedPath? s = some l.name.toList ∨ decodedPath? s = some l.value.toList
  | [], _, _, _, _, hs => by cases hs
  | [_], _, _, heven, _, _ => by simp at heven
  | name :: value :: segments, [], h, _, _, _ => by simp [spelledPairs] at h
  | name :: value :: segments, l :: ls, h, heven, s, hs => by
    rw [List.map_cons, spelledPairs, List.cons.injEq] at h
    obtain ⟨hpair, hrest⟩ := h
    have hspelled : ∀ {a : List Char} {u : String}, some u = spelled? a → decodedPath? a = some u.toList := by
      intro a u hu
      obtain ⟨t, ht, rfl⟩ := Option.map_eq_some_iff.mp hu.symm
      rw [ht, String.toList_ofList]
    obtain ⟨hname, hvalue⟩ := Prod.mk.inj hpair
    rcases List.mem_cons.mp hs with rfl | hs
    · exact ⟨l, List.mem_cons_self, .inl (hspelled hname)⟩
    · rcases List.mem_cons.mp hs with rfl | hs
      · exact ⟨l, List.mem_cons_self, .inr (hspelled hvalue)⟩
      · have heven' : segments.length % 2 = 0 := by
          simp only [List.length_cons] at heven
          omega
        obtain ⟨l', hl', hdec⟩ := exists_label_of_spelledPairs hrest heven' s hs
        exact ⟨l', List.mem_cons_of_mem _ hl', hdec⟩

/-! ## Labels -/

/-- A path without the slashes around it. -/
def strippedPath (cs : List Char) : List Char := Text.trimEnds (· == '/') cs

theorem pathLabels?_eq_pairUp (cs : List Char) : pathLabels? cs =
    if strippedPath cs = [] then some [] else pairUp ((strippedPath cs).splitOn '/') := by
  rw [pathLabels?, ← strippedPath]
  split
  next h => rw [if_pos h]
  next h => rw [if_neg h]

/-- No label of a path has a slash in its name or its value. -/
theorem slash_not_mem_of_pathLabels? {cs : List Char} {ls : List Label} (h : pathLabels? cs = some ls) {l : Label}
    (hl : l ∈ ls) : '/' ∉ l.name.toList ∧ '/' ∉ l.value.toList := by
  rw [pathLabels?_eq_pairUp] at h
  split at h
  · cases h
    cases hl
  · have hslash : ∀ t ∈ pathSegments ls, '/' ∉ t := by
      rw [← pairUp_eq_some_iff.mp h]
      exact fun t => Text.not_mem_of_mem_splitOn
    exact ⟨hslash _ (mem_pathSegments_iff.mpr ⟨l, hl, .inl rfl⟩), hslash _ (mem_pathSegments_iff.mpr ⟨l, hl, .inr rfl⟩)⟩

/-- A path that is joined from texts without slashes has their pairs as labels. -/
theorem pathLabels?_of_strippedPath {cs : List Char} {ts : List (List Char)} (hne : ts ≠ []) (hempty : ts ≠ [[]])
    (hts : ∀ t ∈ ts, '/' ∉ t) (h : strippedPath cs = ['/'].intercalate ts) : pathLabels? cs = pairUp ts := by
  have hjoin : ¬ ['/'].intercalate ts = [] := fun hnil =>
    (Text.intercalate_eq_nil_iff.mp hnil).elim hne hempty
  rw [pathLabels?_eq_pairUp, h, if_neg hjoin, List.splitOn_intercalate '/' hts hne]

/-- **What a path spells.** The labels that a path of paired segments is read as are what the segments spell, pair by
pair, exactly if every segment is decoded into a text without a slash. -/
theorem pairs_eq_spelledPairs_iff {segments : List (List Char)} (hne : segments ≠ [])
    (hsegments : ∀ s ∈ segments, s ≠ []) (heven : segments.length % 2 = 0) {ls : List Label}
    (hls : pathLabels? ((decodedPath? (['/'].intercalate segments)).getD []) = some ls) :
    ls.map Label.pair = spelledPairs segments ↔ ∀ s ∈ segments, ∃ t, decodedPath? s = some t ∧ '/' ∉ t := by
  constructor
  · intro h s hs
    obtain ⟨l, hl, hdec⟩ := exists_label_of_spelledPairs h heven s hs
    obtain ⟨hname, hvalue⟩ := slash_not_mem_of_pathLabels? hls hl
    rcases hdec with hdec | hdec
    · exact ⟨_, hdec, hname⟩
    · exact ⟨_, hdec, hvalue⟩
  · intro h
    have hboth : ∀ s ∈ segments, ∃ t, decodedPath? s = some t ∧ t ≠ [] ∧ '/' ∉ t := by
      intro s hs
      obtain ⟨t, ht, hslash⟩ := h s hs
      exact ⟨t, ht, decodedPath?_ne_nil (hsegments s hs) ht, hslash⟩
    obtain ⟨ts, hdec, hts⟩ := exists_decoded hboth
    have htne : ts ≠ [] := by
      rintro rfl
      cases hdec
      exact hne rfl
    have hempty : ts ≠ [[]] := by
      rintro rfl
      exact (hts [] List.mem_cons_self).1 rfl
    have hpath := pathLabels?_of_strippedPath htne hempty (fun t ht => (hts t ht).2) (Text.trimEnds_intercalate hts)
    rw [decodedPath?_intercalate hdec hne, Option.getD_some, hpath] at hls
    obtain ⟨ls', hls', hpairs⟩ := pairUp_of_decoded hdec heven
    cases hls.symm.trans hls'
    exact hpairs

end MetricGateway
