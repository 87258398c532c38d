import DiagnosticFeed.Message

/-!
# Which issues are published

The settings say in three rules which issues are left out, and an issue is
published if none of them does (`Settings.Publishes`). The suppressors are these
rules as a list that holds only the ones that are switched on. Leaving early
when everything is suppressed gives what asking about each issue would give.
-/

namespace DiagnosticFeed

namespace Settings

/-- The rules for an issue about a file: not everything is suppressed, its code
is not ignored, and it is no noise that is to be left out. Unused code is noise
anywhere, and a suggestion is noise about third-party code. -/
def Publishes (s : Settings) (file : FileKey) (d : Diagnostic) : Prop :=
  s.suppressAll = false ∧ d.code.text ∉ s.ignoredCodes ∧
    ¬(s.ignoreUnusedSuggestions = true ∧
      (d.reportsUnnecessary = true ∨
        (d.category = .suggestion ∧ s.dependencyArea.covers file = true)))

instance (s : Settings) (file : FileKey) (d : Diagnostic) : Decidable (s.Publishes file d) :=
  inferInstanceAs (Decidable (_ ∧ _ ∧ ¬(_ ∧ (_ ∨ (_ ∧ _)))))

theorem mem_suppressors_iff {s : Settings} {x : Suppressor} :
    x ∈ s.suppressors ↔
      (s.suppressAll = true ∧ x = .everything) ∨
        (s.ignoredCodes ≠ [] ∧ x = .codes s.ignoredCodes) ∨
          (s.ignoreUnusedSuggestions = true ∧ x = .dependencyNoise s.dependencyArea) := by
  unfold suppressors
  cases s.suppressAll <;> cases s.ignoredCodes <;> cases s.ignoreUnusedSuggestions <;> simp

theorem any_isTotal_suppressors (s : Settings) :
    s.suppressors.any Suppressor.isTotal = s.suppressAll := by
  rw [Bool.eq_iff_iff, List.any_eq_true]
  simp only [mem_suppressors_iff]
  constructor
  · rintro ⟨x, ⟨all, rfl⟩ | ⟨-, rfl⟩ | ⟨-, rfl⟩, total⟩
    · exact all
    · cases total
    · cases total
  · intro all
    exact ⟨.everything, Or.inl ⟨all, rfl⟩, rfl⟩

/-- No suppressor leaves an issue out exactly if the rules publish it. A rule
that is not switched on has no suppressor, and it would leave out nothing. -/
theorem decisive?_suppressors_eq_none_iff {s : Settings} {file : FileKey} {d : Diagnostic} :
    Suppressor.decisive? s.suppressors file d = none ↔ s.Publishes file d := by
  rw [Suppressor.decisive?, List.find?_eq_none]
  simp only [mem_suppressors_iff]
  constructor
  · intro passes
    refine ⟨?_, ?_, ?_⟩
    · rw [Bool.eq_false_iff]
      intro all
      exact passes .everything (Or.inl ⟨all, rfl⟩) rfl
    · intro ignored
      refine passes (.codes s.ignoredCodes) (Or.inr (Or.inl ⟨List.ne_nil_of_mem ignored, rfl⟩)) ?_
      simpa [Suppressor.excludes] using ignored
    · rintro ⟨on, noise⟩
      refine passes (.dependencyNoise s.dependencyArea) (Or.inr (Or.inr ⟨on, rfl⟩)) ?_
      simpa [Suppressor.excludes] using noise
  · rintro ⟨notAll, notIgnored, noNoise⟩ x (⟨all, rfl⟩ | ⟨-, rfl⟩ | ⟨on, rfl⟩)
    · rw [notAll] at all
      cases all
    · simpa [Suppressor.excludes] using notIgnored
    · intro noise
      refine noNoise ⟨on, ?_⟩
      simpa [Suppressor.excludes] using noise

def messageFor (s : Settings) (issue : FileKey × Diagnostic) : Message :=
  .ofDiagnostic (s.severityRules.resolve issue.2) issue.1 issue.2

theorem messages_of_suppressAll {s : Settings} (h : s.suppressAll = true)
    (issues : List (FileKey × Diagnostic)) : s.messages issues = [] := by
  rw [messages, any_isTotal_suppressors, if_pos h]

/-- The messages are those for the issues that are published, in their order. -/
theorem messages_eq_map_filter (s : Settings) (issues : List (FileKey × Diagnostic)) :
    s.messages issues = (issues.filter fun e => s.Publishes e.1 e.2).map s.messageFor := by
  cases all : s.suppressAll with
  | true =>
      have none : issues.filter (fun e => s.Publishes e.1 e.2) = [] := by
        simp [Publishes, all]
      rw [messages_of_suppressAll all, none, List.map_nil]
  | false =>
      rw [messages, any_isTotal_suppressors, all, if_neg Bool.false_ne_true]
      induction issues with
      | nil => rfl
      | cons e rest ih =>
          by_cases published : s.Publishes e.1 e.2
          · simp [decisive?_suppressors_eq_none_iff.2 published, published, ih, messageFor]
          · have excluded : Suppressor.decisive? s.suppressors e.1 e.2 ≠ none :=
              fun passes => published (decisive?_suppressors_eq_none_iff.1 passes)
            obtain ⟨x, found⟩ := Option.ne_none_iff_exists'.1 excluded
            simp [found, published, ih]

/-- There is one message for each issue that is published, in the order of the
issues and over the span that queries look at; and these are the messages for
the issues that pass the list of suppressors when it is asked about each. -/
theorem messages_eq_published (s : Settings) (issues : List (FileKey × Diagnostic)) :
    s.messages issues =
        (issues.filter fun e => s.Publishes e.1 e.2).map (fun (file, d) =>
          { severity := s.severityRules.resolve d
            excerpt := d.text
            file := file.text
            span := d.span }) ∧
      s.messages issues =
        (issues.filter fun e => (Suppressor.decisive? s.suppressors e.1 e.2).isNone).map
          s.messageFor := by
  have asked : ∀ e : FileKey × Diagnostic,
      (Suppressor.decisive? s.suppressors e.1 e.2).isNone = decide (s.Publishes e.1 e.2) := by
    intro e
    rw [Bool.eq_iff_iff, Option.isNone_iff_eq_none, decisive?_suppressors_eq_none_iff,
      decide_eq_true_iff]
  refine ⟨messages_eq_map_filter s issues, ?_⟩
  rw [messages_eq_map_filter, List.filter_congr fun e _ => (asked e).symm]

end Settings

end DiagnosticFeed
