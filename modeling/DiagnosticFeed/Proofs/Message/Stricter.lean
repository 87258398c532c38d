import DiagnosticFeed.Proofs.Message.Published
import Mathlib.Data.List.Basic

/-!
# Stricter settings

Settings are stricter than others if they leave out at least as much: what the
others switch on stays on, and the lists of what to leave out only grow. Each of
the rules for leaving out is monotone in these settings on its own, third-party
code both with roots and without. So stricter settings publish fewer issues, and
where the severities are set alike, each of these with the message that it had. To
ignore one more code or to suppress everything, as may happen while the settings
are in use, makes them stricter.
-/

namespace DiagnosticFeed

namespace DependencyArea

variable {area wider : DependencyArea} {file : FileKey}

theorem occursIn_mono (directories : area.directories ⊆ wider.directories)
    (occurs : area.occursIn file = true) : wider.occursIn file = true := by
  rw [occursIn, List.any_eq_true] at occurs ⊢
  obtain ⟨d, mem, run⟩ := occurs
  exact ⟨d, directories mem, run⟩

/-- With the same roots, more directories cover more. -/
theorem covers_mono (roots : wider.roots = area.roots)
    (directories : area.directories ⊆ wider.directories) (covered : area.covers file = true) :
    wider.covers file = true := by
  have seen : wider.relative file = area.relative file := by
    rw [relative, relative, roots]
  rw [covers] at covered
  rw [covers, roots, seen]
  cases rootless : area.roots.isEmpty with
  | true =>
      rw [rootless, if_pos rfl] at covered
      rw [if_pos rfl]
      exact occursIn_mono directories covered
  | false =>
      rw [rootless, if_neg Bool.false_ne_true, List.any_eq_true] at covered
      rw [if_neg Bool.false_ne_true, List.any_eq_true]
      obtain ⟨d, mem, leads⟩ := covered
      exact ⟨d, directories mem, leads⟩

end DependencyArea

namespace Settings

/-- Settings that leave out at least what others do, with the same projects and
the same severities. -/
structure StricterThan (strict s : Settings) : Prop where
  suppressAll : s.suppressAll = true → strict.suppressAll = true
  ignoredCodes : s.ignoredCodes ⊆ strict.ignoredCodes
  ignoreUnusedSuggestions :
    s.ignoreUnusedSuggestions = true → strict.ignoreUnusedSuggestions = true
  dependencyDirectories : s.dependencyDirectories ⊆ strict.dependencyDirectories
  projectRoots : strict.projectRoots = s.projectRoots
  unusedAsInfo : strict.unusedAsInfo = s.unusedAsInfo
  unusedCodes : strict.unusedCodes = s.unusedCodes
  severityOverrides : strict.severityOverrides = s.severityOverrides

namespace StricterThan

variable {strict s : Settings} {file : FileKey} {d : Diagnostic}

@[refl] theorem refl (s : Settings) : s.StricterThan s where
  suppressAll := id
  ignoredCodes := List.Subset.refl _
  ignoreUnusedSuggestions := id
  dependencyDirectories := List.Subset.refl _
  projectRoots := rfl
  unusedAsInfo := rfl
  unusedCodes := rfl
  severityOverrides := rfl

/-- One more code to ignore, while the settings are in use. -/
theorem apply_ignoreCode (s : Settings) (code : String) :
    (s.apply (.ignoreCode code)).StricterThan s :=
  { refl s with ignoredCodes := List.subset_append_left _ _ }

theorem apply_suppressAll (s : Settings) : (s.apply (.suppressAll true)).StricterThan s :=
  { refl s with suppressAll := fun _ => rfl }

theorem severityRules_eq (h : strict.StricterThan s) : strict.severityRules = s.severityRules := by
  rw [severityRules, severityRules, h.unusedAsInfo, h.unusedCodes, h.severityOverrides]

theorem messageFor_eq (h : strict.StricterThan s) : strict.messageFor = s.messageFor := by
  funext issue
  rw [messageFor, messageFor, h.severityRules_eq]

theorem covers (h : strict.StricterThan s) (covered : s.dependencyArea.covers file = true) :
    strict.dependencyArea.covers file = true := by
  refine DependencyArea.covers_mono ?_ ?_ covered
  · exact congrArg (List.map FileKey.ofPath) h.projectRoots
  · exact List.map_subset FileKey.ofPath h.dependencyDirectories

theorem publishes (h : strict.StricterThan s) (published : strict.Publishes file d) :
    s.Publishes file d := by
  obtain ⟨notAll, notIgnored, noNoise⟩ := published
  refine ⟨?_, fun ignored => notIgnored (h.ignoredCodes ignored), ?_⟩
  · rw [Bool.eq_false_iff] at notAll ⊢
    exact fun all => notAll (h.suppressAll all)
  · rintro ⟨on, noise⟩
    refine noNoise ⟨h.ignoreUnusedSuggestions on, ?_⟩
    rcases noise with unused | ⟨suggestion, covered⟩
    · exact Or.inl unused
    · exact Or.inr ⟨suggestion, h.covers covered⟩

end StricterThan

/-- Under stricter settings the messages are some of those that there were, in
the same order. The issues that are left were published before, and each has the
message that it had. -/
theorem messages_sublist_of_stricterThan {strict s : Settings} (h : strict.StricterThan s)
    (issues : List (FileKey × Diagnostic)) :
    (strict.messages issues).Sublist (s.messages issues) ∧
      (∀ file d, strict.Publishes file d → s.Publishes file d) ∧
        strict.messages issues =
          (issues.filter fun e => strict.Publishes e.1 e.2).map s.messageFor := by
  have left : strict.messages issues =
      (issues.filter fun e => strict.Publishes e.1 e.2).map s.messageFor := by
    rw [messages_eq_map_filter, h.messageFor_eq]
  refine ⟨?_, fun _ _ published => h.publishes published, left⟩
  rw [left, messages_eq_map_filter]
  refine List.Sublist.map _ (List.monotone_filter_right _ fun e published => ?_)
  rw [decide_eq_true_iff] at published ⊢
  exact h.publishes published

/-- Suggestions about packages are left out. -/
def tidy : Settings :=
  { standard with ignoreUnusedSuggestions := true, projectRoots := ["/p"] }

/-- So are suggestions about vendored code, and a code. -/
def tidier : Settings :=
  { tidy with ignoredCodes := ["7"], dependencyDirectories := ["vendor", "node_modules"] }

/-- An issue with that code, and a suggestion about vendored code. -/
def reported : List (FileKey × Diagnostic) :=
  [(.ofPath "/p/a.ts", ⟨.error, .number 7, "x", none, none, false, none⟩),
    (.ofPath "/p/vendor/b.ts", ⟨.suggestion, .number 2, "y", none, none, false, none⟩),
    (.ofPath "/p/c.ts", ⟨.suggestion, .number 3, "z", none, none, false, none⟩)]

theorem messages_sublist_of_stricterThan_tidier :
    tidier.StricterThan tidy ∧
      (tidier.messages reported).Sublist (tidy.messages reported) ∧
        (tidier.messages reported).map Message.excerpt = ["z"] ∧
          (tidy.messages reported).map Message.excerpt = ["x", "y", "z"] := by
  have stricter : tidier.StricterThan tidy :=
    { StricterThan.refl tidy with
      ignoredCodes := List.nil_subset _
      dependencyDirectories := List.subset_cons_self _ _ }
  exact ⟨stricter, (messages_sublist_of_stricterThan stricter _).1, by decide +kernel,
    by decide +kernel⟩

end Settings

end DiagnosticFeed
