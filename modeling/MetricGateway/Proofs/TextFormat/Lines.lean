import MetricGateway.Proofs.TextFormat.Drafts

/-!
# Reading back lines

A text that was put together from lines is read line by line as they were written (`readText_flatten`): no line has a
line feed but the one at its end (`isLine_of_mem_familyLines`). A sample line adds its sample
(`readLine_sampleLine`), a comment line gives the draft of its family a help text without the padding at its end
(`readLine_helpLine`) or a type (`readLine_typeLine`).
-/

namespace MetricGateway.TextFormat

/-- A text that has a line feed at its end and nowhere else. -/
def IsLine (line : List Char) : Prop := ∃ body, line = body ++ ['\n'] ∧ '\n' ∉ body

theorem readLines_eq_ok_iff {number : Nat} {ds ds' : Drafts} {lines : List (List Char)} :
    readLines number ds lines = .ok ds' ↔ lines.foldlM readLine ds = .ok ds' := by
  induction lines generalizing number ds with
  | nil => exact ⟨fun h => (by cases h; rfl), fun h => (by cases h; rfl)⟩
  | cons line lines ih =>
    rw [readLines, List.foldlM_cons]
    cases readLine ds line with
    | error e => exact ⟨fun h => (by cases h), fun h => (by cases h)⟩
    | ok ds₁ => exact ih

theorem linesOf_flatten {lines : List (List Char)} (h : ∀ line ∈ lines, IsLine line) :
    linesOf lines.flatten = lines.map List.dropLast ++ [[]] := by
  induction lines with
  | nil => rfl
  | cons line lines ih =>
    obtain ⟨⟨body, rfl, hbody⟩, hlines⟩ := List.forall_mem_cons.mp h
    rw [List.flatten_cons, List.append_assoc, List.map_cons, List.dropLast_concat]
    exact (List.splitOn_append_cons_self_of_not_mem hbody _).trans (congrArg (body :: ·) (ih hlines))

/-- The line feed at the end of a line is a blank, so it does not count. -/
theorem trim_dropLast {line : List Char} (h : IsLine line) : Text.trim line.dropLast = Text.trim line := by
  obtain ⟨body, rfl, -⟩ := h
  rw [List.dropLast_concat]
  unfold Text.trim Text.trimEnds
  rw [List.dropWhile_append]
  split
  next hnil =>
    rw [List.isEmpty_iff.mp hnil]
    rfl
  next => exact (Text.trimEnd_concat_of_pos (by decide)).symm

theorem readLine_dropLast {line : List Char} (h : IsLine line) (ds : Drafts) :
    readLine ds line.dropLast = readLine ds line := by
  rw [readLine, readLine, trim_dropLast h]

theorem readText_flatten {lines : List (List Char)} (h : ∀ line ∈ lines, IsLine line) {fs : List Family} :
    readText lines.flatten = .ok fs ↔ ∃ ds, lines.foldlM readLine [] = .ok ds ∧ ds.families = fs := by
  have hdrop : ∀ ds, (lines.map List.dropLast).foldlM readLine ds = lines.foldlM readLine ds := by
    intro ds
    rw [List.foldlM_map]
    induction lines generalizing ds with
    | nil => rfl
    | cons line lines ih =>
      obtain ⟨hline, hlines⟩ := List.forall_mem_cons.mp h
      simp only [List.foldlM_cons, readLine_dropLast hline, ih hlines]
  have hfold : (linesOf lines.flatten).foldlM readLine [] = lines.foldlM readLine [] := by
    rw [linesOf_flatten h, List.foldlM_append, hdrop]
    cases lines.foldlM readLine [] <;> rfl
  unfold readText
  rw [Outcome.map_eq_ok_iff]
  simp only [readLines_eq_ok_iff, hfold]

/-! ## Lines of families -/

/-- A name that a sample line can start with. -/
def IsSampleName (name : String) : Prop := name ≠ "" ∧ name.toList.all isMetricChar = true

theorem isSampleName_of_isMetricName {name : String} (h : isMetricName name = true) : IsSampleName name :=
  ne_empty_of_isNameOver h

theorem IsSampleName.append {name : String} (h : IsSampleName name) {suffix : String}
    (hs : suffix.toList.all isMetricChar = true) : IsSampleName (name ++ suffix) := by
  refine ⟨fun hnil => h.1 ?_, ?_⟩
  · have hlist := congrArg String.toList hnil
    rw [String.toList_append] at hlist
    exact String.toList_eq_nil_iff.mp (List.append_eq_nil_iff.mp hlist).1
  · rw [String.toList_append, List.all_append, h.2, hs]
    rfl

theorem not_mem_of_isBlank {cs : List Char} (h : ∀ c ∈ cs, Text.isBlank c = false) : '\n' ∉ cs := by
  intro hmem
  exact absurd (h _ hmem) (by decide)

theorem IsSampleName.isBlank {name : String} (h : IsSampleName name) : ∀ c ∈ name.toList, Text.isBlank c = false :=
  fun c hc => isBlank_of_isMetricChar (List.all_eq_true.mp h.2 c hc)

theorem not_mem_escapeHelp (cs : List Char) : '\n' ∉ escapeHelp cs := by
  intro h
  obtain ⟨c, -, hc⟩ := List.mem_flatMap.mp h
  unfold escapeHelpChar at hc
  split at hc
  · exact absurd hc (by decide)
  split at hc
  · exact absurd hc (by decide)
  next hfeed => exact hfeed (List.mem_singleton.mp hc).symm

theorem not_mem_escapeValue (cs : List Char) : '\n' ∉ escapeValue cs := by
  intro h
  obtain ⟨c, -, hc⟩ := List.mem_flatMap.mp h
  unfold escapeValueChar at hc
  split at hc
  · exact absurd hc (by decide)
  · exact not_mem_escapeHelp [c] (by simpa [escapeHelp] using hc)

theorem not_mem_labelText {l : Label} (hl : l.Spelled) : '\n' ∉ labelText l := by
  have hname : '\n' ∉ l.name.toList := not_mem_of_isBlank fun c hc =>
    isBlank_of_isMetricChar (isMetricChar_of_isLabelChar (List.all_eq_true.mp hl.2 c hc))
  simp [labelText, hname, not_mem_escapeValue]

theorem not_mem_intercalate {sep : List Char} {ts : List (List Char)} (hsep : '\n' ∉ sep) (h : ∀ t ∈ ts, '\n' ∉ t) :
    '\n' ∉ sep.intercalate ts := by
  induction ts with
  | nil => simp
  | cons t ts ih =>
    obtain ⟨ht, hts⟩ := List.forall_mem_cons.mp h
    by_cases hnil : ts = []
    · rwa [hnil, List.intercalate_singleton]
    · rw [List.intercalate_cons_of_ne_nil hnil]
      simp [ht, hsep, ih hts]

section Sample

variable {name : String} {ls : List Label} {number : List Char} {v : Binary64}

theorem isLine_sampleLine (hname : IsSampleName name) (hls : ∀ l ∈ ls, l.Spelled) (hnumber : Spells number v) :
    IsLine (sampleLine name ls number) := by
  have hblock : '\n' ∉ labelBlock ls := by
    unfold labelBlock
    split
    · simp
    · have hjoin : '\n' ∉ [','].intercalate (ls.map labelText) := by
        refine not_mem_intercalate (by decide) fun t ht => ?_
        obtain ⟨l, hl, rfl⟩ := List.mem_map.mp ht
        exact not_mem_labelText (hls l hl)
      simp [hjoin]
  refine ⟨sampleText name ls number, sampleLine_eq name ls number, ?_⟩
  simp [sampleText, hblock, not_mem_of_isBlank hname.isBlank, not_mem_of_isBlank hnumber.noBlank]

theorem sampleText_eq_cons (hname : IsSampleName name) (ls : List Label) (number : List Char) :
    ∃ c r, sampleText name ls number = c :: r ∧ isMetricChar c = true := by
  obtain ⟨c, r, hc⟩ := List.exists_cons_of_ne_nil (fun h => hname.1 (String.toList_eq_nil_iff.mp h))
  exact ⟨c, r ++ labelBlock ls ++ ' ' :: number, by simp [sampleText, hc],
    List.all_eq_true.mp hname.2 c (hc ▸ List.mem_cons_self)⟩

/-- Only the line feed of a sample line is not part of it. -/
theorem trim_sampleLine (hname : IsSampleName name) (hls : ∀ l ∈ ls, l.Spelled) (hnumber : Spells number v) :
    Text.trim (sampleLine name ls number) = sampleText name ls number := by
  obtain ⟨c, r, hstart, hchar⟩ := sampleText_eq_cons hname ls number
  have hend : sampleText name ls number =
      name.toList ++ labelBlock ls ++ ' ' :: number.dropLast ++ [number.getLast hnumber.ne_nil] := by
    rw [sampleText, List.append_assoc _ (_ :: _), List.cons_append, List.dropLast_concat_getLast]
  rw [← trim_dropLast (isLine_sampleLine hname hls hnumber), sampleLine_eq, List.dropLast_concat]
  exact Text.trimEnds_eq_self hstart (isBlank_of_isMetricChar hchar) hend (hnumber.noBlank _ (List.getLast_mem _))

theorem readLine_sampleLine (hname : IsSampleName name) (hls : ∀ l ∈ ls, l.Spelled) (hnumber : Spells number v)
    (ds : Drafts) : readLine ds (sampleLine name ls number) = ds.addSample ⟨name, ls, v⟩ := by
  obtain ⟨c, r, hstart, hchar⟩ := sampleText_eq_cons hname ls number
  rw [readLine, trim_sampleLine hname hls hnumber]
  split
  next h => exact absurd h (by simp [hstart])
  next h =>
    rw [hstart] at h
    cases h
    exact absurd hchar (by decide)
  next =>
    rw [SampleLine.read_written hname.1 hname.2 hls hnumber]
    rfl

end Sample

/-! ## Comments -/

section Comment

variable {name : String} (hname : isMetricName name = true)
include hname

theorem isLine_commentLine {keyword : String} (hkeyword : '\n' ∉ keyword.toList) {text : List Char}
    (htext : '\n' ∉ text) : IsLine (commentLine keyword name text) := by
  refine ⟨"# ".toList ++ keyword.toList ++ ' ' :: name.toList ++ ' ' :: text, by simp [commentLine], ?_⟩
  have hspelled := not_mem_of_isBlank (isSampleName_of_isMetricName hname).isBlank
  simp [hkeyword, hspelled, htext]

theorem isGap_of_mem_name : ∀ c ∈ name.toList, isGap c = false := fun c hc =>
  isGap_of_isBlank ((isSampleName_of_isMetricName hname).isBlank c hc)

theorem trimStart_name (r : List Char) : Text.trimStart (name.toList ++ r) = name.toList ++ r := by
  have hspelled := isSampleName_of_isMetricName hname
  obtain ⟨c, t, hc⟩ := List.exists_cons_of_ne_nil (fun h => hspelled.1 (String.toList_eq_nil_iff.mp h))
  have hblank : Text.isBlank c = false := hspelled.isBlank c (hc ▸ List.mem_cons_self)
  rw [hc]
  exact List.dropWhile_cons_of_neg (by simp [hblank])

theorem checkName_name : checkName name.toList = .ok name := by
  rw [checkName, if_pos (show isNameOver isMetricChar name.toList = true from hname), String.ofList_toList]

/-- What a reader sees of a comment: without the blanks at its end, and without the one in front of a text of blanks. -/
theorem trim_comment {start : List Char} (hstart : ∃ r, start = '#' :: r) (text : List Char) :
    Text.trim (start ++ (name.toList ++ ' ' :: text)) = start ++ (name.toList ++
      if Text.trimEnd Text.isBlank text = [] then [] else ' ' :: Text.trimEnd Text.isBlank text) := by
  obtain ⟨r, rfl⟩ := hstart
  have hspelled := isSampleName_of_isMetricName hname
  have hname' : Text.trimEnd Text.isBlank name.toList = name.toList :=
    Text.trimEnd_eq_self_iff.mpr fun h => hspelled.isBlank _ (List.getLast_mem h)
  have hne : name.toList ≠ [] := fun h => hspelled.1 (String.toList_eq_nil_iff.mp h)
  have htext : Text.trimEnd Text.isBlank (' ' :: text) =
      if Text.trimEnd Text.isBlank text = [] then [] else ' ' :: Text.trimEnd Text.isBlank text :=
    Text.trimEnd_append Text.isBlank [' '] text
  show Text.trimEnd Text.isBlank (List.dropWhile Text.isBlank ('#' :: r ++ _)) = _
  rw [List.cons_append, List.dropWhile_cons_of_neg (by decide), ← List.cons_append, Text.trimEnd_append,
    Text.trimEnd_append Text.isBlank name.toList, htext]
  split <;> simp [hname', hne]

theorem readLine_commentLine (ds : Drafts) {keyword : String} (hkeyword : keyword = "HELP" ∨ keyword = "TYPE")
    {text : List Char} (htext : '\n' ∉ text) : readLine ds (commentLine keyword name text) =
      readComment ds (' ' :: (keyword.toList ++ ' ' :: (name.toList ++
        if Text.trimEnd Text.isBlank text = [] then [] else ' ' :: Text.trimEnd Text.isBlank text))) := by
  have hline : IsLine (commentLine keyword name text) := by
    refine isLine_commentLine hname ?_ htext
    rcases hkeyword with rfl | rfl <;> decide
  have hbody : (commentLine keyword name text).dropLast =
      '#' :: ' ' :: (keyword.toList ++ [' ']) ++ (name.toList ++ ' ' :: text) := by
    have hline : commentLine keyword name text =
        '#' :: ' ' :: (keyword.toList ++ [' ']) ++ (name.toList ++ ' ' :: text) ++ ['\n'] := by simp [commentLine]
    rw [hline, List.dropLast_concat]
  rw [← readLine_dropLast hline, hbody, readLine, trim_comment hname ⟨_, rfl⟩]
  simp

theorem readLine_helpLine {ds : Drafts} (hnew : (ds.draft name).help = none) (help : String) :
    readLine ds (commentLine "HELP" name (escapeHelp help.toList)) = .ok (Appearance.alter name {}
      (fun d => { d with help := some (String.ofList (settle help.toList)) }) ds) := by
  rw [readLine_commentLine hname ds (.inl rfl) (not_mem_escapeHelp _), ← unescapeHelp_trimEnd]
  generalize Text.trimEnd Text.isBlank (escapeHelp help.toList) = text
  have hcut : (Text.cutAt isGap (name.toList ++ if text = [] then [] else ' ' :: text)).getD
      (name.toList ++ if text = [] then [] else ' ' :: text, []) = (name.toList, text) := by
    split
    next hnil => rw [List.append_nil, Text.cutAt_eq_none (isGap_of_mem_name hname), hnil]; rfl
    next => rw [Text.cutAt_append_cons (isGap_of_mem_name hname) (by decide)]; rfl
  have hhelp : ((ds.lookup name).bind Draft.help).isSome = false := by
    unfold Drafts.draft at hnew
    cases hlook : ds.lookup name <;> simp_all
  show readHelp ds (Text.trimStart (name.toList ++ _)) = _
  rw [trimStart_name hname, readHelp, hcut]
  simp only [checkName_name hname]
  show (if ((ds.lookup name).bind Draft.help).isSome = true then _ else _) = _
  rw [hhelp]
  rfl

theorem readLine_typeLine {ds : Drafts} (hnew : (ds.draft name).type = none) (type : MetricType) :
    readLine ds (commentLine "TYPE" name type.name.toList) =
      .ok (Appearance.alter name {} (fun d => { d with type := some type }) ds) := by
  have hall : type.name.toList.all (!Text.isBlank ·) = true := by cases type <;> decide
  have hblank : ∀ c ∈ type.name.toList, Text.isBlank c = false := by simpa using hall
  have hne : type.name.toList ≠ [] := by cases type <;> decide
  have htrim : Text.trimEnd Text.isBlank type.name.toList = type.name.toList :=
    Text.trimEnd_eq_self_iff.mpr fun h => hblank _ (List.getLast_mem h)
  have hspelled := isSampleName_of_isMetricName hname
  have hwords : Text.words (name.toList ++ ' ' :: type.name.toList) = [name.toList, type.name.toList] := by
    rw [Text.words_append_cons (fun h => hspelled.1 (String.toList_eq_nil_iff.mp h)) hspelled.isBlank (by decide),
      Text.words_eq_singleton hne hblank]
  have htype : MetricType.ofName? type.name = some type := by cases type <;> decide
  have hsome : ((ds.lookup name).getD {}).type.isSome = false := by
    unfold Drafts.draft at hnew
    rw [hnew]
    rfl
  rw [readLine_commentLine hname ds (.inr rfl) (not_mem_of_isBlank hblank), htrim, if_neg hne]
  show readType ds (Text.trimStart (name.toList ++ _)) = _
  rw [trimStart_name hname, readType, hwords]
  simp only [checkName_name hname, String.ofList_toList]
  dsimp only [bind, Except.bind]
  rw [htype]
  show (if ((ds.lookup name).getD {}).type.isSome = true then _ else _) = _
  rw [hsome]
  rfl

end Comment

end MetricGateway.TextFormat
