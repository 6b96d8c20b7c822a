import MetricGateway.Proofs.Store.Rendering
import MetricGateway.Proofs.TextFormat.Replacement
import MetricGateway.Proofs.TextFormat.Samples

/-!
# What was pushed stays in its place

Label values and help texts are the only parts of a scrape that may hold any character. Their escapes are undone
exactly, and an escaped text has no line feed, nor an escaped value a double quote that could end it. So the lines of a
scrape are the lines that were written, and each sample line is read with the labels of its sample and no others,
whatever was pushed (`escapes_keep_in_place`).
-/

namespace MetricGateway

theorem Family.WellFormed.spelled {f : Family} {ignored : IgnoredNames} (h : f.WellFormed ignored) : f.Spelled :=
  ⟨h.name, fun m hm l hl => spelled_of_isLabelName ((h.storable m hm).valid l hl)⟩

namespace Store

open TextFormat

theorem spelled_of_shown {s : Store} (hs : s.Sound) : ∀ f ∈ s.shownFamilies, f.Spelled := by
  intro f hf
  obtain ⟨⟨name, stored, hstored, rfl⟩, -⟩ := mem_shownFamilies_iff.mp hf
  exact (hs name stored hstored).2.spelled

/-- The lines of a scrape are those that were written, and its samples have the labels of the samples of the families.
-/
theorem lines_of_render {s : Store} (hs : s.Sound) :
    ∃ cs samples, Utf8.decode (s.render .text) = .ok cs ∧
      linesOf cs = (s.shownFamilies.flatMap familyLines).map List.dropLast ++ [[]] ∧
      (sampleLinesOf cs).mapM SampleLine.read = .ok samples ∧
      samples.map SampleLine.series = s.shownFamilies.flatMap Family.series := by
  have hspelled := spelled_of_shown hs
  obtain ⟨samples, hread, hseries⟩ := mapM_read_sampleLinesOf_of_spelled hspelled
  refine ⟨_, samples, ?_, linesOf_flatten (isLine_of_mem_flatMap_familyLines hspelled), hread, hseries⟩
  rw [render_text_eq, ← Utf8.encode_flatten, Utf8.decode_encode]

/-- **Escapes are undone exactly and keep what was pushed in its place.** A value behind a double quote, escaped and
closed by another one, is read as it was, up to where the rest starts; a help text comes back from its escaped form.
Escaping is replacing backslashes, double quotes and line feeds, in this order; no escaped form has a line feed, and
the double quotes of an escaped value are all escaped. So in every store, whatever was pushed to it, the lines of the
text rendering are the lines that were written one by one, and its sample lines are read as samples with the names and
the labels of the samples of the families. -/
theorem escapes_keep_in_place (value rest help : List Char) (o : StoreOptions) (ops : List Operation) :
    let s := (new o).run ops
    readQuoted ('"' :: (escapeValue value ++ '"' :: rest)) = .ok (value, rest) ∧
      unescapeHelp (escapeHelp help) = help ∧
      escapeValue value =
        Text.replace '\n' ['\\', 'n'] (Text.replace '"' ['\\', '"'] (Text.replace '\\' ['\\', '\\'] value)) ∧
      escapeHelp help = Text.replace '\n' ['\\', 'n'] (Text.replace '\\' ['\\', '\\'] help) ∧
      '\n' ∉ escapeValue value ∧ '\n' ∉ escapeHelp help ∧ QuotesEscaped (escapeValue value) ∧
      ∃ cs samples, Utf8.decode (s.render .text) = .ok cs ∧
        linesOf cs = (s.shownFamilies.flatMap familyLines).map List.dropLast ++ [[]] ∧
        (sampleLinesOf cs).mapM SampleLine.read = .ok samples ∧
        samples.map SampleLine.series = s.shownFamilies.flatMap Family.series :=
  ⟨readValue_escapeValue value rest, unescapeHelp_escapeHelp help, escapeValue_eq_replace value,
    escapeHelp_eq_replace help, not_mem_escapeValue value, not_mem_escapeHelp help, quotesEscaped_escapeValue value,
    lines_of_render (sound_run o ops)⟩

end Store
end MetricGateway
