import MetricGateway.Proofs.Text.Pieces

/-!
# Words between blanks

`Spaced cs ws` says that a text consists of words with at least one blank between each two and any number of blanks
around them. A text is spaced in exactly one way, namely into its `words` (`spaced_iff`).
-/

namespace MetricGateway.Text

/-- A text that is not empty and has no blanks. -/
structure IsWord (w : List Char) : Prop where
  ne_nil : w ≠ []
  noBlank : ∀ c ∈ w, isBlank c = false

/-- A text of blanks. -/
def Blanks (b : List Char) : Prop := ∀ c ∈ b, isBlank c = true

instance (b : List Char) : Decidable (Blanks b) := List.decidableBAll (fun c => isBlank c = true) b

@[simp] theorem blanks_nil : Blanks [] := fun _ hc => nomatch hc

@[simp] theorem blanks_cons {c : Char} {b : List Char} : Blanks (c :: b) ↔ isBlank c = true ∧ Blanks b :=
  List.forall_mem_cons

theorem Blanks.append {b b' : List Char} (h : Blanks b) (h' : Blanks b') : Blanks (b ++ b') :=
  List.forall_mem_append.mpr ⟨h, h'⟩

/-- A text that is empty or starts with a blank. -/
def StartsBlank (cs : List Char) : Prop := ∀ c ∈ cs.head?, isBlank c = true

@[simp] theorem startsBlank_nil : StartsBlank [] := fun _ hc => nomatch hc

@[simp] theorem startsBlank_cons {c : Char} {cs : List Char} : StartsBlank (c :: cs) ↔ isBlank c = true :=
  ⟨fun h => h c rfl, fun h _ hd => Option.some.inj hd ▸ h⟩

theorem Blanks.startsBlank {b : List Char} (h : Blanks b) : StartsBlank b := fun c hc => h c (List.mem_of_head? hc)

/-- The text is made of the words, with blanks between and around them. -/
inductive Spaced : List Char → List (List Char) → Prop
  | blanks {b : List Char} (hb : Blanks b) : Spaced b []
  | word {b w cs : List Char} {ws : List (List Char)} (hb : Blanks b) (hw : IsWord w) (hstart : StartsBlank cs)
      (hcs : Spaced cs ws) : Spaced (b ++ (w ++ cs)) (w :: ws)

theorem words_append_of_blanks {b : List Char} (hb : Blanks b) (cs : List Char) : words (b ++ cs) = words cs := by
  induction b with
  | nil => rfl
  | cons c b ih =>
    obtain ⟨hc, hb⟩ := blanks_cons.mp hb
    rw [List.cons_append, words_cons hc, ih hb]

theorem words_append_of_startsBlank {w cs : List Char} (hw : IsWord w) (hcs : StartsBlank cs) :
    words (w ++ cs) = w :: words cs := by
  cases cs with
  | nil =>
    rw [List.append_nil, words_eq_singleton hw.ne_nil hw.noBlank]
    rfl
  | cons d cs =>
    have hd : isBlank d = true := startsBlank_cons.mp hcs
    rw [words_append_cons hw.ne_nil hw.noBlank hd, words_cons hd]

theorem Spaced.words_eq {cs : List Char} {ws : List (List Char)} (h : Spaced cs ws) : words cs = ws := by
  induction h with
  | blanks hb =>
    have hwords := words_append_of_blanks hb []
    rwa [List.append_nil] at hwords
  | word hb hw hstart _ ih => rw [words_append_of_blanks hb, words_append_of_startsBlank hw hstart, ih]

theorem Spaced.append_blanks {b cs : List Char} {ws : List (List Char)} (hb : Blanks b) (h : Spaced cs ws) :
    Spaced (b ++ cs) ws := by
  cases h with
  | blanks hb' => exact .blanks (hb.append hb')
  | word hb' hw hstart hcs =>
    rw [← List.append_assoc]
    exact .word (hb.append hb') hw hstart hcs

/-- A text has no blanks up to its end or to a first one. -/
theorem exists_run (cs : List Char) : ∃ w r, cs = w ++ r ∧ (∀ c ∈ w, isBlank c = false) ∧ StartsBlank r := by
  induction cs with
  | nil => exact ⟨[], [], rfl, by simp, by simp⟩
  | cons c cs ih =>
    cases hc : isBlank c with
    | true => exact ⟨[], c :: cs, rfl, by simp, by simpa using hc⟩
    | false =>
      obtain ⟨w, r, rfl, hw, hr⟩ := ih
      exact ⟨c :: w, r, rfl, List.forall_mem_cons.mpr ⟨hc, hw⟩, hr⟩

/-- Every text is spaced into words. -/
theorem exists_spaced (cs : List Char) : ∃ ws, Spaced cs ws := by
  induction hn : cs.length using Nat.strongRecOn generalizing cs with
  | _ n ih =>
    subst hn
    cases cs with
    | nil => exact ⟨[], .blanks (by simp)⟩
    | cons c cs =>
      cases hc : isBlank c with
      | true =>
        obtain ⟨ws, hws⟩ := ih cs.length (by simp) cs rfl
        exact ⟨ws, hws.append_blanks (b := [c]) (by simpa using hc)⟩
      | false =>
        obtain ⟨w, r, rfl, hw, hr⟩ := exists_run cs
        have hlength : r.length < (c :: (w ++ r)).length := by
          rw [List.length_cons, List.length_append]
          omega
        obtain ⟨ws, hws⟩ := ih r.length hlength r rfl
        exact ⟨_, .word (b := []) (by simp) ⟨List.cons_ne_nil c w, List.forall_mem_cons.mpr ⟨hc, hw⟩⟩ hr hws⟩

/-- A text is spaced into its words and into nothing else. -/
theorem spaced_iff {cs : List Char} {ws : List (List Char)} : Spaced cs ws ↔ words cs = ws := by
  refine ⟨Spaced.words_eq, ?_⟩
  rintro rfl
  obtain ⟨ws, hws⟩ := exists_spaced cs
  rwa [hws.words_eq]

/-- Where no blank stands at the start, the first word does. -/
theorem head_words {c : Char} (hc : isBlank c = false) {cs w : List Char} {ws : List (List Char)}
    (h : words (c :: cs) = w :: ws) : ∃ t r, w = c :: t ∧ cs = t ++ r ∧ StartsBlank r := by
  obtain ⟨t, r, rfl, ht, hr⟩ := exists_run cs
  have hword : IsWord (c :: t) := ⟨List.cons_ne_nil c t, List.forall_mem_cons.mpr ⟨hc, ht⟩⟩
  rw [← List.cons_append, words_append_of_startsBlank hword hr] at h
  cases h
  exact ⟨t, r, rfl, rfl, hr⟩

end MetricGateway.Text
