import DiagnosticFeed.Proofs.Command.Shown
import DiagnosticFeed.Proofs.Json.Validity

/-!
# Settings that are shown and the schema for them

The schema that the program shows accepts all settings that it shows
(`config_conforms`). At each of its three levels the schema has no place for keys
that it does not name, so the keys that are written are among those that it names.
-/

namespace DiagnosticFeed

open Json (AskForObject assertions)

namespace SettingsDocument

/-! ## The schemas of single fields -/

theorem flagSchema_accepts (description : String) (default b : Bool) :
    (flagSchema description default).accepts (.boolean b) = true := by
  rw [flagSchema, Json.accepts_typed (by simp [assertions])]
  rfl

theorem textsSchema_accepts (description : String) {more : List (String × Json)}
    (notes : ∀ k ∈ more, k.1 ∉ assertions) (l : List String) :
    (textsSchema description more).accepts (.strings l) = true := by
  have typed : (Json.strings l).hasType "array" = true := rfl
  have element (s : String) :
      (Json.record [("type", .string "string")]).accepts (.string s) = true :=
    (Json.accepts_typed (List.forall_mem_nil _) _ _).trans rfl
  rw [textsSchema, Json.accepts_record_iff, List.forall_mem_append]
  refine ⟨?_, fun k mem assertion => absurd assertion (notes k mem)⟩
  simp [assertions, Json.keywordAccepts_type, Json.keywordAccepts_items_strings, element, typed]

theorem severitySchema_accepts (severity : Severity) :
    (Json.record [("enum", .strings ["error", "warning", "info"])]).accepts severity.toJson =
      true := by
  rw [Json.accepts_record_iff, List.forall_mem_singleton, Severity.toJson,
    Json.keywordAccepts_enum_strings]
  cases severity <;> decide

/-- Every code may have an override. -/
theorem overridesSchema_accepts {front : List (String × Json)} (plain : AskForObject front)
    (overrides : SortedMap String Severity) :
    (Json.record (front ++ [("additionalProperties",
      .record [("enum", .strings ["error", "warning", "info"])])])).accepts
        (Settings.overridesToJson overrides) = true := by
  rw [Settings.overridesToJson, Json.accepts_additional_iff plain, List.forall_mem_map]
  exact fun rule _ => severitySchema_accepts rule.2

theorem delaySchema_accepts {notes : List (String × Json)} (h : ∀ k ∈ notes, k.1 ∉ assertions)
    (n : ℕ) : (Json.record (("type", .string "integer") :: ("minimum", .natural 0) ::
      notes)).accepts (.natural n) = true := by
  rw [Json.accepts_record_iff, List.forall_mem_cons, List.forall_mem_cons, Json.keywordAccepts_type,
    Json.keywordAccepts_minimum_natural]
  refine ⟨fun _ => ?_, by simp, fun k mem assertion => absurd assertion (h k mem)⟩
  simp [Json.hasType, Json.natural, Rat.isInt]

/-! ## The schemas of objects -/

theorem settingsSchema_accepts (s : Settings) : settingsSchema.accepts s.toJson = true := by
  refine (Json.accepts_object_iff (.described _) (by decide)).2 ?_
  simp only [List.forall_mem_cons]
  refine ⟨?_, ?_, ?_, ?_, ?_, ?_, ?_, ?_, List.forall_mem_nil _⟩
  · exact flagSchema_accepts _ _ _
  · exact textsSchema_accepts _ (by simp [assertions]) _
  · exact flagSchema_accepts _ _ _
  · exact flagSchema_accepts _ _ _
  · exact textsSchema_accepts _ (by simp [assertions]) _
  · exact overridesSchema_accepts (.described _) _
  · exact textsSchema_accepts _ (by simp [assertions]) _
  · exact textsSchema_accepts _ (by simp [assertions]) _

theorem replaySchema_accepts (delay : Option UInt64) :
    replaySchema.accepts (replayToJson delay) = true := by
  refine (Json.accepts_object_iff (.described _) (by decide)).2 ?_
  cases delay with
  | none => exact List.forall_mem_nil _
  | some ms =>
      rw [Json.knownMember, List.forall_mem_singleton]
      exact delaySchema_accepts (by simp [assertions]) ms.toNat

theorem schemaJson_accepts (d : SettingsDocument) : schemaJson.accepts d.toJson = true := by
  have plain (dialect title description : Json) :
      AskForObject [("$schema", dialect), ("title", title), ("description", description),
        ("type", .string "object")] := by
    simp [AskForObject, assertions]
  refine (Json.accepts_object_iff (plain _ _ _) (by decide)).2 ?_
  rw [List.forall_mem_append, List.forall_mem_cons, List.forall_mem_singleton]
  refine ⟨?_, settingsSchema_accepts d.settings, replaySchema_accepts d.delay⟩
  cases d.schema with
  | none => exact List.forall_mem_nil _
  | some name =>
      rw [Json.knownMember, List.forall_mem_singleton]
      exact (Json.accepts_typed (by simp [assertions]) _ _).trans rfl

end SettingsDocument

/-- The schema that is shown is a value, and so are all settings that are shown, and it
accepts them. -/
theorem Command.config_conforms :
    ∃ schema : Json, Json.parse? SettingsDocument.schemaText = some schema ∧
      (∀ d : SettingsDocument, ∃ v, Json.parse? d.toText = some v ∧
        Json.parse? (d.toText ++ "\n") = some v ∧ schema.accepts v = true) ∧
      ∀ (env : Environment) (options : ConfigOptions),
        if options.schema.isSome then Json.parse? (config env options).output = some schema
        else ∃ v, Json.parse? (config env options).output = some v ∧ schema.accepts v = true := by
  obtain ⟨alone, ended⟩ := Json.parse?_pretty .short SettingsDocument.schemaJson
  have conform (d : SettingsDocument) : ∃ v, Json.parse? d.toText = some v ∧
      Json.parse? (d.toText ++ "\n") = some v ∧ SettingsDocument.schemaJson.accepts v = true :=
    ⟨d.toJson, (Json.parse?_pretty .tall d.toJson).1, (Json.parse?_pretty .tall d.toJson).2,
      d.schemaJson_accepts⟩
  refine ⟨SettingsDocument.schemaJson, alone, conform, fun env options => ?_⟩
  split
  case isTrue asked =>
    rw [config, if_pos asked]
    exact ended
  case isFalse shown =>
    obtain ⟨v, -, read, accepted⟩ := conform (loadDocument env options.settingsFile).1
    refine ⟨v, ?_, accepted⟩
    rw [output_config (Option.not_isSome_iff_eq_none.1 shown), read]

/-- A key that is not known is refused. -/
example : SettingsDocument.schemaJson.accepts
    (.record [("replay", .record [("debounce", .natural 5)])]) = false := by
  decide +kernel

end DiagnosticFeed
