import DiagnosticFeed.Proofs.Json.Fields
import DiagnosticFeed.Proofs.Json.Layout
import DiagnosticFeed.Settings.File

/-!
# Settings read back

Settings are read from any part of their members, in any order, and have the
standard values where a member is missing. A settings document is read back from
the text that it is printed as, so what a command has loaded and shown is loaded
again as it was.
-/

namespace DiagnosticFeed

open Json (Record)

namespace Settings

/-- The members of the settings, with the overrides in some order. -/
def members (s : Settings) (rules : List (String × Severity)) : List (String × Json) :=
  [("suppressAllDiagnostics", .boolean s.suppressAll),
   ("ignoredDiagnosticCodes", .strings s.ignoredCodes),
   ("ignoreUnusedSuggestionDiagnostics", .boolean s.ignoreUnusedSuggestions),
   ("unusedAsInfo", .boolean s.unusedAsInfo),
   ("unusedDiagnosticCodes", .strings s.unusedCodes),
   ("severityOverrides", .record (rules.map fun e => (e.1, e.2.toJson))),
   ("projectRoots", .strings s.projectRoots),
   ("dependencyDirectories", .strings s.dependencyDirectories)]

/-- The settings for some keys, and the standard settings for all others. -/
def limitedTo (s : Settings) (keys : List String) : Settings where
  suppressAll :=
    if "suppressAllDiagnostics" ∈ keys then s.suppressAll else standard.suppressAll
  ignoredCodes :=
    if "ignoredDiagnosticCodes" ∈ keys then s.ignoredCodes else standard.ignoredCodes
  ignoreUnusedSuggestions :=
    if "ignoreUnusedSuggestionDiagnostics" ∈ keys then s.ignoreUnusedSuggestions
    else standard.ignoreUnusedSuggestions
  unusedAsInfo := if "unusedAsInfo" ∈ keys then s.unusedAsInfo else standard.unusedAsInfo
  unusedCodes := if "unusedDiagnosticCodes" ∈ keys then s.unusedCodes else standard.unusedCodes
  severityOverrides :=
    if "severityOverrides" ∈ keys then s.severityOverrides else standard.severityOverrides
  projectRoots := if "projectRoots" ∈ keys then s.projectRoots else standard.projectRoots
  dependencyDirectories :=
    if "dependencyDirectories" ∈ keys then s.dependencyDirectories
    else standard.dependencyDirectories

variable {s : Settings} {rules : List (String × Severity)}

theorem toJson_eq_record (s : Settings) :
    s.toJson = .record (s.members s.severityOverrides.entries) := rfl

theorem limitedTo_fieldNames (s : Settings) : s.limitedTo fieldNames = s := by
  simp [limitedTo, fieldNames]

/-- Overrides are read in any order of their codes. -/
theorem overridesOfJson?_record (order : rules.Perm s.severityOverrides.entries) :
    overridesOfJson? (.record (rules.map fun e => (e.1, e.2.toJson))) =
      some s.severityOverrides := by
  have back (rule : String × Severity) :
      ((Severity.ofJson? .direct rule.2.toJson).map fun severity => (rule.1, severity)) =
        some rule := by
    rw [show Severity.ofJson? .direct rule.2.toJson = some rule.2 from Severity.ofName?_name _]
    rfl
  have read : (rules.map fun e => (e.1, e.2.toJson)).mapM (fun m =>
      (Severity.ofJson? .direct m.2).map fun severity => (m.1, severity)) = some rules :=
    Json.mapM_map_eq_some back rules
  simp only [Json.record, overridesOfJson?, Json.keyed?_record, Option.bind_eq_bind,
    Option.bind_some, read, SortedMap.ofList_eq_of_perm order]
  rfl

/-- Each member is found under its key. -/
theorem lookup_members (s : Settings) (rules : List (String × Severity)) :
    (s.members rules).lookup "suppressAllDiagnostics" = some (.boolean s.suppressAll) ∧
      (s.members rules).lookup "ignoredDiagnosticCodes" = some (.strings s.ignoredCodes) ∧
      (s.members rules).lookup "ignoreUnusedSuggestionDiagnostics" =
        some (.boolean s.ignoreUnusedSuggestions) ∧
      (s.members rules).lookup "unusedAsInfo" = some (.boolean s.unusedAsInfo) ∧
      (s.members rules).lookup "unusedDiagnosticCodes" = some (.strings s.unusedCodes) ∧
      (s.members rules).lookup "severityOverrides" =
        some (.record (rules.map fun e => (e.1, e.2.toJson))) ∧
      (s.members rules).lookup "projectRoots" = some (.strings s.projectRoots) ∧
      (s.members rules).lookup "dependencyDirectories" =
        some (.strings s.dependencyDirectories) := by
  simp [members, List.lookup_cons]

theorem ofJson?_of_perm (order : rules.Perm s.severityOverrides.entries) {keys : List String}
    {given : List (String × Json)}
    (perm : given.Perm ((s.members rules).filter fun m => m.1 ∈ keys)) :
    ofJson? (.record given) = some (s.limitedTo keys) := by
  have nodup : ((s.members rules).map (·.1)).Nodup :=
    show fieldNames.Nodup from by decide
  obtain ⟨r, read, -, fields⟩ :=
    Json.exists_record?_eq_of_perm_filter fieldNames (· ∈ keys) nodup perm
  obtain ⟨suppress, ignored, ignoreUnused, asInfo, unused, overrides, roots, dependencies⟩ :=
    s.lookup_members rules
  -- every field has its own value where its key is given, and the standard one elsewhere
  have field {α : Type} {name : String} {v : Json} {back : Json → Option α} {a : α} (default : α)
      (known : name ∈ fieldNames) (given : (s.members rules).lookup name = some v)
      (readBack : back v = some a) :
      r.orElse name back default = some (if name ∈ keys then a else default) :=
    Record.orElse_of_get? (by rw [fields name known, given]) readBack
  have flag (b : Bool) : Json.toBool? (.boolean b) = some b := rfl
  have texts := Json.toList?_strings
  simp only [ofJson?, read, Option.bind_eq_bind, Option.bind_some,
    field standard.suppressAll (by decide) suppress (flag _),
    field standard.ignoredCodes (by decide) ignored (texts _),
    field standard.ignoreUnusedSuggestions (by decide) ignoreUnused (flag _),
    field standard.unusedAsInfo (by decide) asInfo (flag _),
    field standard.unusedCodes (by decide) unused (texts _),
    field standard.severityOverrides (by decide) overrides (overridesOfJson?_record order),
    field standard.projectRoots (by decide) roots (texts _),
    field standard.dependencyDirectories (by decide) dependencies (texts _)]
  rfl

theorem ofJson?_toJson (s : Settings) : ofJson? s.toJson = some s := by
  have all : (s.members s.severityOverrides.entries).filter (fun m => m.1 ∈ fieldNames) =
      s.members s.severityOverrides.entries := by
    rw [List.filter_eq_self]
    intro m mem
    exact decide_eq_true (show m.1 ∈ fieldNames from List.mem_map.2 ⟨m, mem, rfl⟩)
  rw [toJson_eq_record, ofJson?_of_perm (.refl _) (.of_eq all.symm), limitedTo_fieldNames]

end Settings

namespace SettingsDocument

theorem replayOfJson?_replayToJson (delay : Option UInt64) :
    replayOfJson? (replayToJson delay) = some delay := by
  have nodup := (Json.keys_knownMember_sublist "debounceMs"
    (fun ms : UInt64 => .natural ms.toNat) delay).nodup (by simp)
  obtain ⟨r, read, -, fields⟩ := Json.exists_record?_eq_of_perm ["debounceMs"] nodup (.refl _)
  have given : r.get? "debounceMs" = delay.map fun ms => .natural ms.toNat := by
    rw [fields _ (by decide), Json.lookup_knownMember, if_pos rfl]
  have back (ms : UInt64) :
      Record.nullable Json.toUInt64? (.natural ms.toNat) = some (some ms) := by
    have number := Json.toUInt64?_natural ms
    simp only [Json.natural, Record.nullable] at number ⊢
    rw [number, Option.map_some]
  simp only [replayOfJson?, replayToJson, read, Option.bind_eq_bind, Option.bind_some,
    Record.omissible_of_get? given back]

theorem ofJson?_toJson (d : SettingsDocument) : ofJson? d.toJson = some d := by
  have keys : ((Json.knownMember "$schema" Json.string d.schema ++
      [("diagnostics", d.settings.toJson), ("replay", replayToJson d.delay)]).map (·.1)).Sublist
        ["$schema", "diagnostics", "replay"] := by
    rw [List.map_append]
    exact (Json.keys_knownMember_sublist "$schema" _ _).append (.refl _)
  obtain ⟨r, read, -, fields⟩ := Json.exists_record?_eq_of_perm
    ["$schema", "diagnostics", "replay"] (keys.nodup (by decide)) (.refl _)
  have schema : r.get? "$schema" = d.schema.map Json.string := by
    rw [fields _ (by decide)]
    simp [List.lookup_append, Json.lookup_knownMember, List.lookup_cons]
  have settings : r.get? "diagnostics" = some d.settings.toJson := by
    rw [fields _ (by decide)]
    simp [List.lookup_append, Json.lookup_knownMember]
  have delay : r.get? "replay" = some (replayToJson d.delay) := by
    rw [fields _ (by decide)]
    simp [List.lookup_append, Json.lookup_knownMember, List.lookup_cons]
  have schemaBack (s : String) : Record.nullable Json.toText? (.string s) = some (some s) := rfl
  simp only [ofJson?, toJson, read, Option.bind_eq_bind, Option.bind_some,
    Record.omissible_of_get? schema schemaBack, Record.orElse, settings, delay,
    Settings.ofJson?_toJson, replayOfJson?_replayToJson]
  rfl

/-- A document is read back from its text, also with the line feed behind it
that it is printed with. -/
theorem ofText?_toText (d : SettingsDocument) :
    ofText? d.toText = some d ∧ ofText? (d.toText ++ "\n") = some d := by
  obtain ⟨plain, ended⟩ := Json.parse?_pretty .tall d.toJson
  exact ⟨by rw [ofText?, toText, plain, Option.bind_some, ofJson?_toJson],
    by rw [ofText?, toText, ended, Option.bind_some, ofJson?_toJson]⟩

end SettingsDocument

end DiagnosticFeed
