import DiagnosticFeed.Command.Run
import DiagnosticFeed.Proofs.Settings.RoundTrip

/-!
# Settings that are shown and loaded again

What the program shows of the settings that it has loaded is a settings file:
loaded again, it gives the same settings without a warning, and the same is shown
once more (`config_reread`). A file that holds only some members gives the
standard settings for the others.
-/

namespace DiagnosticFeed

namespace Command

variable {env : Environment} {options : ConfigOptions}

theorem loadDocument_of_read {named : Option String} {text : String} {d : SettingsDocument}
    (given : env.read (settingsPath env.directory named) = .ok text)
    (holds : SettingsDocument.ofText? text = some d) : loadDocument env named = (d, none) := by
  simp only [loadDocument, given, SettingsDocument.load, holds]

theorem output_config (shown : options.schema = none) : (config env options).output =
    (loadDocument env options.settingsFile).1.toText ++ "\n" := by
  simp [config, shown]

structure ShownAgain (env later : Environment) (options again : ConfigOptions) : Prop where
  loaded : loadDocument later again.settingsFile =
    ((loadDocument env options.settingsFile).1, none)
  shown : config later again = ⟨0, (config env options).output, []⟩

theorem shownAgain_of_read {later : Environment} {again : ConfigOptions}
    (shown : options.schema = none) (shown' : again.schema = none)
    (given : later.read (settingsPath later.directory again.settingsFile) =
      .ok (config env options).output) : ShownAgain env later options again := by
  rw [output_config shown] at given
  have loaded := loadDocument_of_read given (SettingsDocument.ofText?_toText _).2
  refine ⟨loaded, ?_⟩
  rw [output_config shown]
  simp [config, shown', loaded]

/-- Settings and documents come back from what is written of them. -/
structure Reread (s : Settings) (d : SettingsDocument) (env : Environment)
    (options : ConfigOptions) : Prop where
  /-- Some of the members, in whatever order and layout, leave the standard settings
  for the others. -/
  ofText?_part : ∀ (rules : List (String × Severity)) (keys : List String)
    (given : List (String × Json)) (text : String),
      rules.Perm s.severityOverrides.entries →
        given.Perm ((s.members rules).filter fun m => m.1 ∈ keys) →
          Json.Spread (Json.record given).tokens text.toList →
            Settings.ofText? text = some (s.limitedTo keys)
  ofText?_toText : SettingsDocument.ofText? d.toText = some d
  ofText?_printed : SettingsDocument.ofText? (d.toText ++ "\n") = some d
  shownAgain : ∀ (later : Environment) (again : ConfigOptions),
    options.schema = none → again.schema = none →
      later.read (settingsPath later.directory again.settingsFile) =
          .ok (config env options).output →
        ShownAgain env later options again

/-- Settings are read from any part of their members, and what is shown is loaded
and shown again as it was. -/
theorem config_reread (s : Settings) (d : SettingsDocument) (env : Environment)
    (options : ConfigOptions) : Reread s d env options where
  ofText?_part rules keys given text order perm spread := by
    rw [Settings.ofText?, Json.parse?_of_spread spread, Option.bind_some,
      Settings.ofJson?_of_perm order perm]
  ofText?_toText := (SettingsDocument.ofText?_toText d).1
  ofText?_printed := (SettingsDocument.ofText?_toText d).2
  shownAgain _ _ := shownAgain_of_read

/-- Settings with an empty list in place of the standard codes. -/
def chosen : Settings :=
  { Settings.standard with
    unusedCodes := []
    severityOverrides := .ofList [("7006", .warning), ("2322", .error)]
    projectRoots := ["/p"] }

/-- Some members that only hold a part of these settings, in another order. -/
def partly : List (String × Json) :=
  [("severityOverrides", .record [("7006", .string "warning"), ("2322", .string "error")]),
    ("unusedDiagnosticCodes", .array [])]

/-- A place where every file has the same text. -/
def Environment.holding (directory text : String) : Environment :=
  ⟨directory, "", fun _ => .ok (.text text)⟩

theorem Environment.read_holding (directory text path : String) :
    (holding directory text).read path = .ok text := rfl

theorem config_reread_chosen :
    let document : SettingsDocument := ⟨some "s.json", chosen, some 0⟩
    let before := Environment.holding "/p" document.toText
    let later := Environment.holding "/q" (config before .none).output
    Settings.ofText? (Json.record partly).compact = some { chosen with projectRoots := [] } ∧
      loadDocument later none = (document, none) ∧
        config later .none = ⟨0, (config before .none).output, []⟩ := by
  intro document before later
  have back := config_reread chosen document before .none
  have order : [("7006", Severity.warning), ("2322", .error)].Perm
      chosen.severityOverrides.entries := by decide +kernel
  have perm : partly.Perm ((chosen.members [("7006", .warning), ("2322", .error)]).filter
      fun m => m.1 ∈ ["severityOverrides", "unusedDiagnosticCodes"]) := List.Perm.swap _ _ []
  have limited : chosen.limitedTo ["severityOverrides", "unusedDiagnosticCodes"] =
      { chosen with projectRoots := [] } := by
    simp [Settings.limitedTo, chosen, Settings.standard]
  have loaded : loadDocument before none = (document, none) :=
    loadDocument_of_read (Environment.read_holding _ _ _) back.ofText?_toText
  obtain ⟨reloaded, shownAgain⟩ :=
    back.shownAgain later .none rfl rfl (Environment.read_holding _ _ _)
  refine ⟨?_, ?_, shownAgain⟩
  · rw [← limited]
    exact back.ofText?_part _ _ _ _ order perm (Json.spread_compact _)
  · rw [show ConfigOptions.none.settingsFile = none from rfl, loaded] at reloaded
    exact reloaded

end Command

end DiagnosticFeed
