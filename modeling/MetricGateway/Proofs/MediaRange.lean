import MetricGateway.MediaRange
import MetricGateway.Proofs.Binary64.Order
import MetricGateway.Proofs.Sorted.First
import MetricGateway.Proofs.Text.Pieces

/-!
# Content negotiation

A range of an accept header is read parameter by parameter, and of several parameters of one name the last one counts
(`MediaRange.read_eq`). A range counts if its weight is positive and it asks for protobuf or for text; the others have
no influence (`ExpositionFormat.negotiate_congr`). Of the ranges that count, the first one of the greatest weight
decides about the format (`ExpositionFormat.exists_leads`), and so protobuf is chosen exactly if a range that asks for
it comes before all ranges that ask for text (`ExpositionFormat.negotiate_eq_protobuf_iff`).
-/

namespace MetricGateway

namespace MediaRange

/-! ## Reading a range -/

/-- The name and the value of a parameter, if it is one. -/
def parameter? (cs : List Char) : Option (List Char × List Char) :=
  (Text.cutAt (· == '=') cs).map fun x => (Text.trim x.1, Text.trimEnds (· == '"') (Text.trim x.2))

/-- The value of the last parameter of a name among the given texts. -/
def lastOf? (name : String) (parameters : List (List Char)) : Option (List Char) :=
  ((parameters.filterMap parameter?).reverse.find? (·.1 = name.toList)).map Prod.snd

/-- The media type that a range starts with. -/
def typeOf (cs : List Char) : List Char := Text.trim ((cs.splitOn ';').headD [])

/-- The value of the last parameter of a name in a range. -/
def valueOf? (name : String) (cs : List Char) : Option (List Char) :=
  lastOf? name ((cs.splitOn ';').tail.map Text.trim)

/-- The weight of a range: one unless it has a parameter `q`, and zero if the last one is no number. -/
def weightOf (cs : List Char) : Binary64 :=
  match valueOf? "q" cs with
  | none => ((1 : Nat) : Binary64)
  | some value => (Binary64.read? value).getD .zero

theorem lastOf?_cons (name : String) (p : List Char) (ps : List (List Char)) :
    lastOf? name (p :: ps) = (lastOf? name ps).or (lastOf? name [p]) := by
  have hcut : (p :: ps).filterMap parameter? = [p].filterMap parameter? ++ ps.filterMap parameter? :=
    List.filterMap_append (l := [p])
  rw [lastOf?, hcut, List.reverse_append, List.find?_append, Option.map_or]
  rfl

/-- A parameter gives the value of its name. -/
theorem lastOf?_singleton {p key value : List Char} (h : parameter? p = some (key, value)) (name : String) :
    lastOf? name [p] = if key = name.toList then some value else none := by
  rw [lastOf?, List.filterMap_cons_some h]
  by_cases hkey : key = name.toList <;> simp [hkey]

theorem addParameter_eq (r : MediaRange) (p : List Char) :
    r.addParameter p = {
      mediaType := r.mediaType
      weight := match lastOf? "q" [p] with
        | none => r.weight
        | some value => (Binary64.read? value).getD .zero
      message := (lastOf? "proto" [p]).or r.message
      encoding := (lastOf? "encoding" [p]).or r.encoding } := by
  have hdiffer : "q".toList ≠ "proto".toList ∧ "q".toList ≠ "encoding".toList ∧
      "proto".toList ≠ "encoding".toList := by decide
  cases hcut : Text.cutAt (· == '=') p with
  | none =>
    have hnone : parameter? p = none := by rw [parameter?, hcut, Option.map_none]
    have hlast : ∀ name, lastOf? name [p] = none := fun name => by rw [lastOf?, List.filterMap_cons_none hnone]; rfl
    rw [addParameter, hcut, hlast, hlast, hlast]
    rfl
  | some x =>
    obtain ⟨key, value⟩ := x
    have hsome : parameter? p = some (Text.trim key, Text.trimEnds (· == '"') (Text.trim value)) := by
      rw [parameter?, hcut, Option.map_some]
    rw [addParameter, hcut, lastOf?_singleton hsome, lastOf?_singleton hsome, lastOf?_singleton hsome]
    dsimp only
    generalize "q".toList = q, "proto".toList = proto, "encoding".toList = encoding at *
    obtain ⟨hqp, hqe, hpe⟩ := hdiffer
    generalize Text.trim key = name
    by_cases hq : name = q
    · subst hq
      simp [hqp, hqe]
    · by_cases hproto : name = proto
      · subst hproto
        simp [hq, hpe]
      · by_cases henc : name = encoding
        · subst henc
          simp [hq, hproto]
        · simp [hq, hproto, henc]

theorem foldl_addParameter (r : MediaRange) (ps : List (List Char)) :
    ps.foldl addParameter r = {
      mediaType := r.mediaType
      weight := match lastOf? "q" ps with
        | none => r.weight
        | some value => (Binary64.read? value).getD .zero
      message := (lastOf? "proto" ps).or r.message
      encoding := (lastOf? "encoding" ps).or r.encoding } := by
  induction ps generalizing r with
  | nil => rfl
  | cons p ps ih =>
    rw [List.foldl_cons, ih, addParameter_eq, lastOf?_cons _ p ps, lastOf?_cons _ p ps, lastOf?_cons _ p ps,
      Option.or_assoc, Option.or_assoc]
    cases lastOf? "q" ps <;> rfl

/-- **What a range is read as.** -/
theorem read_eq (cs : List Char) : read cs = {
    mediaType := typeOf cs
    weight := weightOf cs
    message := valueOf? "proto" cs
    encoding := valueOf? "encoding" cs } := by
  obtain ⟨t, ps, hpieces⟩ := List.exists_cons_of_ne_nil (List.splitOn_ne_nil ';' cs)
  rw [read, typeOf, weightOf, valueOf?, valueOf?, valueOf?, hpieces]
  show (ps.map Text.trim).foldl addParameter { mediaType := Text.trim t } = _
  rw [foldl_addParameter, Option.or_none, Option.or_none]
  rfl

/-! ## What a range asks for -/

/-- A range asks for delimited metric families in protobuf. -/
def AsksForProtobuf (cs : List Char) : Prop :=
  typeOf cs = "application/vnd.google.protobuf".toList ∧
    valueOf? "proto" cs = some "io.prometheus.client.MetricFamily".toList ∧
    valueOf? "encoding" cs = some "delimited".toList

/-- A range asks for text. -/
def AsksForText (cs : List Char) : Prop := typeOf cs = "text/plain".toList

instance (cs : List Char) : Decidable (AsksForProtobuf cs) := inferInstanceAs (Decidable (_ ∧ _ ∧ _))

instance (cs : List Char) : Decidable (AsksForText cs) := inferInstanceAs (Decidable (_ = _))

theorem isProtobuf_read_iff {cs : List Char} : (read cs).isProtobuf = true ↔ AsksForProtobuf cs := by
  rw [read_eq]
  simp only [isProtobuf, AsksForProtobuf, decide_eq_true_eq]

theorem format?_read_eq_protobuf_iff {cs : List Char} : (read cs).format? = some .protobuf ↔ AsksForProtobuf cs := by
  rw [← isProtobuf_read_iff, format?]
  split
  next h => simp [h]
  next h =>
    split <;> simp [h]

theorem format?_read_eq_text_iff {cs : List Char} : (read cs).format? = some .text ↔ AsksForText cs := by
  have htype : (read cs).mediaType = typeOf cs := by rw [read_eq]
  rw [format?, htype]
  split
  next h =>
    have hproto : typeOf cs = "application/vnd.google.protobuf".toList := (isProtobuf_read_iff.mp h).1
    simp [AsksForText, hproto]
  next h =>
    rw [AsksForText]
    split <;> simp_all

theorem not_asksForText_of_asksForProtobuf {cs : List Char} (h : AsksForProtobuf cs) : ¬ AsksForText cs := by
  have hne : "application/vnd.google.protobuf".toList ≠ "text/plain".toList := by decide
  exact fun htext => hne (h.1.symm.trans htext)

/-- What the ranges of a header are sorted by: the greater weight comes first. -/
def byWeight (a b : MediaRange) : Ordering := compare b.weight a.weight

instance : Std.TransCmp byWeight := inferInstanceAs (Std.TransCmp fun a b => compareOn weight b a)

/-- Whether a range decides about the format of a reply: its weight is positive and it asks for a known format. -/
def decides (r : MediaRange) : Bool := Binary64.zero < r.weight && r.format?.isSome

/-- The ranges of a header. -/
def rangesOf (header : String) : List (List Char) := header.toList.splitOn ','

/-- A range that counts: its weight is positive, and it asks for protobuf or for text. -/
def Counts (cs : List Char) : Prop := Binary64.zero < weightOf cs ∧ (AsksForProtobuf cs ∨ AsksForText cs)

instance (cs : List Char) : Decidable (Counts cs) := inferInstanceAs (Decidable (_ ∧ _))

theorem weight_read (cs : List Char) : (read cs).weight = weightOf cs := by rw [read_eq]

theorem decides_read_iff {cs : List Char} : decides (read cs) = true ↔ Counts cs := by
  have hformat : (read cs).format?.isSome = true ↔ AsksForProtobuf cs ∨ AsksForText cs := by
    rw [← format?_read_eq_protobuf_iff, ← format?_read_eq_text_iff]
    rcases (read cs).format? with _ | _ | _ <;> simp
  rw [decides, Bool.and_eq_true, decide_eq_true_eq, weight_read, hformat, Counts]

end MediaRange

theorem findSome?_filter {α β : Type} (f : α → Option β) (p : α → Bool) (xs : List α) :
    (xs.filter p).findSome? f = (xs.find? fun x => p x && (f x).isSome).bind f := by
  induction xs with
  | nil => rfl
  | cons x xs ih =>
    rw [List.filter_cons, List.find?_cons]
    cases p x with
    | false => simpa using ih
    | true =>
      cases hf : f x with
      | none => simpa [hf] using ih
      | some y => simp [hf]

/-- Positive numbers have one order. -/
theorem Binary64.compare_eq_lt_iff {x y : Binary64} (hx : zero < x) (hy : zero < y) : compare x y = .lt ↔ x < y := by
  refine ⟨fun h => (lt_iff_of_compare_lt hx.2.1 hy.2.1 h).mpr ?_, compare_of_lt⟩
  rintro ⟨-, rfl⟩
  exact Int.lt_irrefl _ hy.2.2

/-! ## The range that leads -/

namespace ExpositionFormat

open MediaRange (rangesOf AsksForProtobuf AsksForText weightOf Counts byWeight decides)

/-- The first range of the greatest weight decides, if there is one. -/
theorem negotiate_eq (header : String) : negotiate (some header) =
    (((Sorted.sortBy byWeight ((rangesOf header).map MediaRange.read)).find? decides).bind
      MediaRange.format?).getD text := by
  have hpositive : Sorted.sortBy byWeight (MediaRange.positiveRanges header.toList) =
      (Sorted.sortBy byWeight ((rangesOf header).map MediaRange.read)).filter fun r => Binary64.zero < r.weight :=
    (Sorted.filter_sortBy _ _).symm
  show ((Sorted.sortBy byWeight (MediaRange.positiveRanges header.toList)).findSome? MediaRange.format?).getD text = _
  rw [hpositive, findSome?_filter]
  rfl

/-- The ranges that do not count have no influence. -/
theorem negotiate_congr {header header' : String}
    (h : (rangesOf header).filter Counts = (rangesOf header').filter Counts) :
    negotiate (some header) = negotiate (some header') := by
  have hfilter : ∀ header, ((rangesOf header).map MediaRange.read).filter decides =
      ((rangesOf header).filter Counts).map MediaRange.read := by
    intro header
    rw [List.filter_map]
    congr 2
    funext cs
    exact Bool.eq_iff_iff.mpr (MediaRange.decides_read_iff.trans decide_eq_true_iff.symm)
  rw [negotiate_eq, negotiate_eq, ← List.head?_filter, ← List.head?_filter, Sorted.filter_sortBy, Sorted.filter_sortBy,
    hfilter, hfilter, h]

/-- The range at a place leads its header: it counts, and every other range that counts has a smaller weight, or the
same weight and a later place. -/
structure Leads (header : String) (i : Nat) (cs : List Char) : Prop where
  here : (rangesOf header)[i]? = some cs
  counts : Counts cs
  first : ∀ j ds, (rangesOf header)[j]? = some ds → Counts ds →
    weightOf ds < weightOf cs ∨ weightOf ds = weightOf cs ∧ i ≤ j

theorem leads_of_isFirst {header : String} {i : Nat} {r : MediaRange}
    (h : Sorted.IsFirst byWeight decides ((rangesOf header).map MediaRange.read) i r) :
    ∃ cs, Leads header i cs ∧ MediaRange.read cs = r := by
  obtain ⟨hhere, hpasses, hfirst⟩ := h
  rw [List.getElem?_map, Option.map_eq_some_iff] at hhere
  obtain ⟨cs, hcs, rfl⟩ := hhere
  have hcounts := MediaRange.decides_read_iff.mp hpasses
  refine ⟨cs, ⟨hcs, hcounts, fun j ds hds hdcounts => ?_⟩, rfl⟩
  have hj : ((rangesOf header).map MediaRange.read)[j]? = some (MediaRange.read ds) := by
    rw [List.getElem?_map, hds, Option.map_some]
  have hlater := hfirst j _ hj (MediaRange.decides_read_iff.mpr hdcounts)
  rwa [byWeight, MediaRange.weight_read, MediaRange.weight_read, Binary64.compare_eq_lt_iff hdcounts.1 hcounts.1,
    Std.LawfulEqOrd.compare_eq_iff_eq] at hlater

/-- A header in which some range counts is led by a range, and this range says the format. -/
theorem exists_leads {header : String} {cs : List Char} (hcs : cs ∈ rangesOf header) (h : Counts cs) :
    ∃ i ds, Leads header i ds ∧
      (AsksForProtobuf ds ∧ negotiate (some header) = protobuf ∨
        AsksForText ds ∧ negotiate (some header) = text) := by
  have hmem : MediaRange.read cs ∈ Sorted.sortBy byWeight ((rangesOf header).map MediaRange.read) :=
    Sorted.mem_sortBy.mpr (List.mem_map_of_mem hcs)
  obtain ⟨r, hr⟩ := Option.isSome_iff_exists.mp
    (List.find?_isSome.mpr ⟨_, hmem, MediaRange.decides_read_iff.mpr h⟩)
  obtain ⟨i, hi⟩ := Sorted.find?_sortBy_eq_some_iff.mp hr
  obtain ⟨ds, hds, rfl⟩ := leads_of_isFirst hi
  refine ⟨i, ds, hds, ?_⟩
  rw [negotiate_eq, hr, Option.bind_some]
  refine hds.counts.2.imp (fun hp => ⟨hp, ?_⟩) fun ht => ⟨ht, ?_⟩
  · rw [MediaRange.format?_read_eq_protobuf_iff.mpr hp, Option.getD_some]
  · rw [MediaRange.format?_read_eq_text_iff.mpr ht, Option.getD_some]

theorem negotiate_of_no_counts {header : String} (h : ∀ cs ∈ rangesOf header, ¬ Counts cs) :
    negotiate (some header) = text := by
  have hnone : (Sorted.sortBy byWeight ((rangesOf header).map MediaRange.read)).find? decides = none := by
    refine List.find?_eq_none.mpr fun r hr hd => ?_
    obtain ⟨cs, hcs, rfl⟩ := List.mem_map.mp (Sorted.mem_sortBy.mp hr)
    exact h cs hcs (MediaRange.decides_read_iff.mp hd)
  rw [negotiate_eq, hnone]
  rfl

/-- **Content negotiation.** Protobuf is chosen exactly if some range with a positive weight asks for it and every range
with a positive weight that asks for text has a smaller weight, or the same weight and a later place. The other ranges
have no influence. -/
theorem negotiate_eq_protobuf_iff (header : String) :
    (negotiate (some header) = protobuf ↔
      ∃ (i : Nat) (r : List Char), (rangesOf header)[i]? = some r ∧ AsksForProtobuf r ∧ Binary64.zero < weightOf r ∧
        ∀ (j : Nat) t, (rangesOf header)[j]? = some t → AsksForText t → Binary64.zero < weightOf t →
          weightOf t < weightOf r ∨ weightOf t = weightOf r ∧ i < j) ∧
      ∀ header', (rangesOf header').filter Counts = (rangesOf header).filter Counts →
        negotiate (some header') = negotiate (some header) := by
  refine ⟨⟨fun h => ?_, ?_⟩, fun header' => negotiate_congr⟩
  · by_cases hany : ∃ cs ∈ rangesOf header, Counts cs
    · obtain ⟨cs, hcs, hcounts⟩ := hany
      obtain ⟨i, r, hlead, ⟨hr, -⟩ | ⟨-, ht⟩⟩ := exists_leads hcs hcounts
      · refine ⟨i, r, hlead.here, hr, hlead.counts.1, fun j t ht htext hpos => ?_⟩
        refine (hlead.first j t ht ⟨hpos, .inr htext⟩).imp_right fun ⟨hw, hij⟩ => ⟨hw, Nat.lt_of_le_of_ne hij ?_⟩
        rintro rfl
        cases hlead.here.symm.trans ht
        exact MediaRange.not_asksForText_of_asksForProtobuf hr htext
      · rw [h] at ht
        cases ht
    · have hnone : ∀ cs ∈ rangesOf header, ¬ Counts cs := fun cs hcs hcounts => hany ⟨cs, hcs, hcounts⟩
      rw [negotiate_of_no_counts hnone] at h
      cases h
  · rintro ⟨i, r, hhere, hr, hpos, hfirst⟩
    obtain ⟨j, t, hlead, ⟨-, hp⟩ | ⟨ht, -⟩⟩ := exists_leads (List.mem_of_getElem? hhere) ⟨hpos, .inl hr⟩
    · exact hp
    · -- the range that leads cannot ask for text
      exfalso
      have hrt := hfirst j t hlead.here ht hlead.counts.1
      have htr := hlead.first i r hhere ⟨hpos, .inl hr⟩
      rcases hrt with hlt | ⟨heq, hij⟩
      · rcases htr with hgt | ⟨heq, -⟩
        · exact Int.lt_asymm hlt.2.2 hgt.2.2
        · rw [heq] at hlt
          exact Int.lt_irrefl _ hlt.2.2
      · rcases htr with hgt | ⟨-, hji⟩
        · rw [heq] at hgt
          exact Int.lt_irrefl _ hgt.2.2
        · omega

end ExpositionFormat
end MetricGateway
