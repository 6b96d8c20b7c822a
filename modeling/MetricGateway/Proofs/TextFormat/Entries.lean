import MetricGateway.Proofs.TextFormat.Reordering

/-!
# What a line enters

A line that describes a family or gives a sample makes one entry in the draft of one family: a help text, a type, or
the reading of a sample (`Entry`). Which entry that is depends on the line and on the types of the families
(`Drafts.entry?`), and it is refused only if it repeats a description (`readTrimmed_eq_ok_iff_exists_entry`). So drafts
that agree on what was said of the families are changed by the same entries (`Drafts.Agree.readTrimmed`).
-/

namespace MetricGateway.TextFormat

/-- What a line enters into the draft of a family. -/
inductive Entry
  | help (family : String) (text : String)
  | type (family : String) (type : MetricType)
  | sample (r : Reading)

namespace Entry

/-- The family of an entry. -/
def family : Entry → String
  | help family _ => family
  | type family _ => family
  | sample r => r.family

/-- The draft of the family after an entry. -/
def change : Entry → Draft → Draft
  | help _ text, d => { d with help := some text }
  | type _ t, d => { d with type := some t }
  | sample r, d => d.enter r

/-- Makes an entry. -/
def enter (e : Entry) (ds : Drafts) : Drafts := Appearance.alter e.family {} e.change ds

/-- The entry does not repeat a description. -/
def New (ds : Drafts) : Entry → Prop
  | help family _ => (ds.draft family).help = none
  | type family _ => (ds.draft family).type = none
  | sample _ => True

theorem draft_enter (e : Entry) (ds : Drafts) (family : String) :
    (e.enter ds).draft family = if e.family = family then e.change (ds.draft family) else ds.draft family :=
  ds.draft_alter e.family family e.change

end Entry

/-! ## Lines -/

/-- The help text that is said behind `HELP`. -/
def saidHelp? (r : List Char) : Option Entry :=
  let (name, help) := (Text.cutAt isGap r).getD (r, [])
  if isNameOver isMetricChar name then some (.help (String.ofList name) (String.ofList (unescapeHelp help))) else none

/-- The type that is said behind `TYPE`. -/
def saidType? (r : List Char) : Option Entry :=
  match Text.words r with
  | name :: type :: _ =>
    if isNameOver isMetricChar name then
      (MetricType.ofName? (String.ofList type)).map fun t => .type (String.ofList name) t
    else none
  | _ => none

/-- What a line, without the blanks around it, says about a family. -/
def description? : List Char → Option Entry
  | '#' :: r =>
    match Text.cutAt isGap (Text.trimStart r) with
    | none => none
    | some (keyword, rest) =>
      if keyword = "HELP".toList then saidHelp? (Text.trimStart rest)
      else if keyword = "TYPE".toList then saidType? (Text.trimStart rest)
      else none
  | _ => none

/-- What a line, without the blanks around it, enters. -/
def Drafts.entry? (ds : Drafts) (line : List Char) : Option Entry :=
  if isSample line then (ds.reading? line).map .sample else description? line

theorem checkName_eq_ok_iff {name : List Char} {s : String} :
    checkName name = .ok s ↔ isNameOver isMetricChar name = true ∧ s = String.ofList name := by
  unfold checkName
  split
  next h => simp [h, eq_comm]
  next h => simp [h]

theorem bind_help (ds : Drafts) (family : String) :
    (ds.lookup family).bind Draft.help = (ds.draft family).help := by
  unfold Drafts.draft
  cases ds.lookup family <;> rfl

theorem readHelp_eq_ok_iff {ds es : Drafts} {r : List Char} :
    readHelp ds r = .ok es ↔ ∃ e, saidHelp? r = some e ∧ e.New ds ∧ es = e.enter ds := by
  unfold readHelp saidHelp?
  generalize (Text.cutAt isGap r).getD (r, []) = found
  obtain ⟨name, help⟩ := found
  dsimp only
  rw [Outcome.bind_eq_ok_iff]
  simp only [checkName_eq_ok_iff, bind_help]
  by_cases hname : isNameOver isMetricChar name = true
  · rw [if_pos hname]
    cases hhelp : (ds.draft (String.ofList name)).help with
    | none =>
      constructor
      · rintro ⟨_, ⟨-, rfl⟩, h⟩
        rw [hhelp] at h
        cases h
        exact ⟨_, rfl, hhelp, rfl⟩
      · rintro ⟨_, he, -, rfl⟩
        cases he
        refine ⟨_, ⟨hname, rfl⟩, ?_⟩
        rw [hhelp]
        rfl
    | some help' =>
      constructor
      · rintro ⟨_, ⟨-, rfl⟩, h⟩
        rw [hhelp] at h
        cases h
      · rintro ⟨_, he, hnew, -⟩
        cases he
        cases hhelp.symm.trans hnew
  · simp [hname]

theorem readType_eq_ok_iff {ds es : Drafts} {r : List Char} :
    readType ds r = .ok es ↔ ∃ e, saidType? r = some e ∧ e.New ds ∧ es = e.enter ds := by
  unfold readType saidType?
  rcases Text.words r with _ | ⟨name, _ | ⟨type, rest⟩⟩
  · simp
  · simp
  · dsimp only
    rw [Outcome.bind_eq_ok_iff]
    simp only [checkName_eq_ok_iff]
    by_cases hname : isNameOver isMetricChar name = true
    · rw [if_pos hname]
      cases MetricType.ofName? (String.ofList type) with
      | none =>
        constructor
        · rintro ⟨_, -, h⟩
          cases h
        · rintro ⟨_, he, -⟩
          cases he
      | some t =>
        cases htype : (ds.draft (String.ofList name)).type with
        | none =>
          constructor
          · rintro ⟨_, ⟨-, rfl⟩, h⟩
            dsimp only at h
            rw [← Drafts.draft, htype] at h
            cases h
            exact ⟨_, rfl, htype, rfl⟩
          · rintro ⟨_, he, -, rfl⟩
            cases he
            refine ⟨_, ⟨hname, rfl⟩, ?_⟩
            dsimp only
            rw [← Drafts.draft, htype]
            rfl
        | some t' =>
          constructor
          · rintro ⟨_, ⟨-, rfl⟩, h⟩
            dsimp only at h
            rw [← Drafts.draft, htype, Option.isSome_some, if_pos rfl] at h
            cases h
          · rintro ⟨_, he, hnew, -⟩
            cases he
            cases htype.symm.trans hnew
    · simp [hname]

/-- A line that says something makes its entry, unless this repeats a description. -/
theorem readTrimmed_eq_ok_iff_exists_entry {ds es : Drafts} {line : List Char}
    (h : isSample line = true ∨ isDescription line = true) :
    readTrimmed ds line = .ok es ↔ ∃ e, ds.entry? line = some e ∧ e.New ds ∧ es = e.enter ds := by
  rcases h with hsample | hdescription
  · rw [readTrimmed_eq_ok_iff hsample, Drafts.entry?, if_pos hsample]
    cases ds.reading? line with
    | none => simp
    | some r =>
      constructor
      · rintro ⟨_, hr, rfl⟩
        cases hr
        exact ⟨.sample r, rfl, trivial, rfl⟩
      · rintro ⟨_, he, -, rfl⟩
        cases he
        exact ⟨r, rfl, rfl⟩
  · rw [Drafts.entry?, if_neg (by simp [isSample_of_isDescription hdescription])]
    unfold isDescription at hdescription
    split at hdescription
    next r =>
      show readComment ds r = .ok es ↔ _
      cases hcut : Text.cutAt isGap (Text.trimStart r) with
      | none =>
        rw [hcut] at hdescription
        cases hdescription
      | some found =>
        obtain ⟨keyword, rest⟩ := found
        rw [hcut, Option.any_some, decide_eq_true_iff] at hdescription
        simp only [readComment, description?, hcut]
        by_cases hhelp : keyword = "HELP".toList
        · simp only [if_pos hhelp]
          exact readHelp_eq_ok_iff
        · have htype : keyword = "TYPE".toList := hdescription.resolve_left hhelp
          simp only [if_neg hhelp, if_pos htype]
          exact readType_eq_ok_iff
    next => cases hdescription

theorem isDescription_of_description? {line : List Char} {e : Entry} (h : description? line = some e) :
    isDescription line = true := by
  unfold description? at h
  split at h
  next r =>
    cases hcut : Text.cutAt isGap (Text.trimStart r) with
    | none =>
      rw [hcut] at h
      cases h
    | some found =>
      obtain ⟨keyword, rest⟩ := found
      rw [hcut] at h
      simp only [isDescription, hcut, Option.any_some, decide_eq_true_iff]
      dsimp only at h
      split at h
      next hhelp => exact .inl hhelp
      next =>
        split at h
        next htype => exact .inr htype
        next => cases h
  next => cases h

/-- A line that was read is idle, or it made its entry. -/
theorem idle_or_entry_of_readTrimmed {ds es : Drafts} {line : List Char} (h : readTrimmed ds line = .ok es) :
    ((∀ ds', readTrimmed ds' line = .ok ds') ∧ es = ds) ∨
      (isSample line = true ∨ isDescription line = true) ∧
        ∃ e, ds.entry? line = some e ∧ e.New ds ∧ es = e.enter ds := by
  by_cases hspoken : isSample line = true ∨ isDescription line = true
  · exact .inr ⟨hspoken, (readTrimmed_eq_ok_iff_exists_entry hspoken).mp h⟩
  · have hidle : ∀ ds', readTrimmed ds' line = .ok ds' := by
      intro ds'
      have hsample : isSample line = false := by simpa using fun h => hspoken (.inl h)
      have hdescription : isDescription line = false := by simpa using fun h => hspoken (.inr h)
      exact readTrimmed_of_idle ds' hsample hdescription
    rw [hidle] at h
    cases h
    exact .inl ⟨hidle, rfl⟩

/-! ## Drafts that agree on descriptions -/

/-- The drafts have the same help texts and types. -/
structure Drafts.Agree (ds es : Drafts) : Prop where
  help : ∀ family, (ds.draft family).help = (es.draft family).help
  type : ∀ family, (ds.draft family).type = (es.draft family).type

namespace Drafts.Agree

variable {ds es : Drafts} (h : ds.Agree es)
include h

theorem typeOf : ds.typeOf = es.typeOf := by
  funext family
  rw [Drafts.typeOf, Drafts.typeOf, h.type]

theorem entry? : ds.entry? = es.entry? := by
  funext line
  rw [Drafts.entry?, Drafts.entry?, reading?_congr h.typeOf]

theorem new_iff (e : Entry) : e.New ds ↔ e.New es := by
  cases e with
  | help family => rw [Entry.New, Entry.New, h.help]
  | type family => rw [Entry.New, Entry.New, h.type]
  | sample => exact Iff.rfl

/-- A line that is read after the one is read after the other, and both make the same entry or none. -/
theorem readTrimmed {line : List Char} {ds' : Drafts} (hread : TextFormat.readTrimmed ds line = .ok ds') :
    (ds' = ds ∧ TextFormat.readTrimmed es line = .ok es) ∨
      ∃ e : Entry, ds' = e.enter ds ∧ TextFormat.readTrimmed es line = .ok (e.enter es) := by
  rcases idle_or_entry_of_readTrimmed hread with ⟨hidle, rfl⟩ | ⟨hspoken, e, he, hnew, rfl⟩
  · exact .inl ⟨rfl, hidle es⟩
  · rw [h.entry?] at he
    exact .inr ⟨e, rfl, (readTrimmed_eq_ok_iff_exists_entry hspoken).mpr ⟨e, he, (h.new_iff e).mp hnew, rfl⟩⟩

end Drafts.Agree
end MetricGateway.TextFormat
