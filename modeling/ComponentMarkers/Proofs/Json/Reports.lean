import ComponentMarkers.Proofs.Json.Reading
import ComponentMarkers.Session

/-!
# Reports and domain values as JSON

The text of a report spells an object with the five fields of the report and nothing else, whatever
characters are in the names, paths and messages.  So a report can be told from its text.  Diagnostics,
identities and suggestions are read back from every spelling of their JSON.
-/

namespace ComponentMarkers

open JsonReader JsonText

theorem DiagnosticKind.findNamed_code (kind : DiagnosticKind) : findNamed all code kind.code = some kind := by
  cases kind <;> decide

theorem Diagnostic.reads (diagnostic : Diagnostic) :
    Reads reader diagnostic.json.Spells diagnostic :=
  (reads_record ⟨"kind", DiagnosticKind.reader, "message", .text⟩ (by decide)
    (reads_oneOf diagnostic.kind.findNamed_code) (reads_text diagnostic.message)).map fun found =>
      Diagnostic.mk found.1 found.2

theorem ArtifactIdentity.reads (identity : ArtifactIdentity) :
    Reads reader identity.json.Spells identity :=
  (reads_record ⟨"package", .text, "nested_name", .text⟩ (by decide)
    (reads_text identity.package) (reads_text identity.nestedName)).map fun found =>
      ArtifactIdentity.mk found.1 found.2

theorem Completion.reads (completion : Completion) :
    Reads reader completion.json.Spells completion :=
  (reads_record ⟨"value", .text, "message", .text⟩ (by decide)
    (reads_text completion.value) (reads_text completion.message)).map fun found =>
      Completion.mk found.1 found.2

/-! ## Reports -/

/-- The diagnostics' JSON tells them. -/
theorem Diagnostic.json_injective : Function.Injective Diagnostic.json := by
  intro diagnostic same h
  have hread := (diagnostic.reads).whole diagnostic.json.spells_compact
  rw [h] at hread
  exact (Except.ok.inj (((same.reads).whole same.json.spells_compact).symm.trans hread)).symm

/-- The report's JSON tells it. -/
theorem RoundReport.json_injective : Function.Injective RoundReport.json := by
  rintro ⟨round, annotations, written, diagnostics, claimed⟩
    ⟨otherRound, otherAnnotations, otherWritten, otherDiagnostics, otherClaimed⟩ h
  simp only [RoundReport.json, JsonValue.object.injEq, List.cons.injEq, Prod.mk.injEq,
    JsonValue.number.injEq, JsonValue.array.injEq, JsonValue.bool.injEq, true_and, and_true] at h
  obtain ⟨rfl, hannotations, hwritten, hdiagnostics, rfl⟩ := h
  have hstring : Function.Injective JsonValue.string := fun _ _ => JsonValue.string.inj
  have hpath : Function.Injective fun path : Path => JsonValue.string path.text :=
    fun path same hsame => by
      cases path
      cases same
      exact congrArg Path.mk (JsonValue.string.inj hsame)
  rw [List.map_injective_iff.2 hstring hannotations, List.map_injective_iff.2 hpath hwritten,
    List.map_injective_iff.2 Diagnostic.json_injective hdiagnostics]

/-- JSON is faithful.  The text of a report spells an object of exactly five fields with the values of the
report, the diagnostics as kinds and messages in order; it spells no other value, a reader of JSON reads
this one, and no other report has the same text.  Every diagnostic, identity and suggestion is read back
from its text, be it compact or over several lines. -/
theorem json_isFaithful :
    (∀ report : RoundReport, ∃ value, value = .object
        [("round", .number report.round),
          ("annotations", .array (report.annotations.map .string)),
          ("written", .array (report.written.map fun path => .string path.text)),
          ("diagnostics", .array (report.diagnostics.map fun diagnostic => .object
            [("kind", .string diagnostic.kind.code), ("message", .string diagnostic.message)])),
          ("claimed", .bool report.claimed)] ∧
      (∀ spelled : JsonValue, spelled.Spells report.json.pretty.toList ↔ spelled = value) ∧
      JsonReader.whole JsonReader.value report.json.pretty = .ok value ∧
      ∀ other : RoundReport, other.json.pretty = report.json.pretty ↔ other = report) ∧
    (∀ diagnostic : Diagnostic,
      JsonReader.whole Diagnostic.reader diagnostic.json.compact = .ok diagnostic ∧
        JsonReader.whole Diagnostic.reader diagnostic.json.pretty = .ok diagnostic) ∧
    (∀ identity : ArtifactIdentity,
      JsonReader.whole ArtifactIdentity.reader identity.json.compact = .ok identity ∧
        JsonReader.whole ArtifactIdentity.reader identity.json.pretty = .ok identity) ∧
    (∀ completion : Completion,
      JsonReader.whole Completion.reader completion.json.compact = .ok completion ∧
        JsonReader.whole Completion.reader completion.json.pretty = .ok completion) := by
  refine ⟨fun report => ⟨report.json, rfl, fun spelled => ⟨fun h => ?_, ?_⟩, ?_,
      fun other => ⟨fun h => ?_, ?_⟩⟩,
    fun diagnostic => ?_, fun identity => ?_, fun completion => ?_⟩
  · exact h.unique report.json.spells_pretty
  · rintro rfl
    exact report.json.spells_pretty
  · exact (reads_value report.json).whole report.json.spells_pretty
  · have hother := other.json.spells_pretty
    rw [h] at hother
    exact RoundReport.json_injective (hother.unique report.json.spells_pretty)
  · rintro rfl
    rfl
  · exact ⟨diagnostic.reads.whole diagnostic.json.spells_compact,
      diagnostic.reads.whole diagnostic.json.spells_pretty⟩
  · exact ⟨identity.reads.whole identity.json.spells_compact,
      identity.reads.whole identity.json.spells_pretty⟩
  · exact ⟨completion.reads.whole completion.json.spells_compact,
      completion.reads.whole completion.json.spells_pretty⟩

end ComponentMarkers
