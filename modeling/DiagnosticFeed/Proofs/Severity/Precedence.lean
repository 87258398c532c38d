import DiagnosticFeed.Proofs.Json.Fields
import DiagnosticFeed.Settings

/-!
# Which rule gives a severity

The settings put their severity rules into one table, and further rules may be
pushed behind them; the first rule for a code counts. So the table is three
layers, each asked only where the ones in front of it have no rule for the code:
the rules for unused declarations, the overrides and what was pushed. Behind the
last layer stands the category.

An override has its code to itself, hence the overrides may stand in any order.
-/

namespace DiagnosticFeed

namespace SortedMap

variable {α : Type}

theorem lookup_entries (m : SortedMap String α) (k : String) : m.entries.lookup k = m.get? k := by
  refine Option.ext fun v => ?_
  rw [Json.lookup_eq_some_iff_mem m.nodup_keys, get?_eq_some_iff]

end SortedMap

namespace SeverityRules

variable {rules : SeverityRules} {d : Diagnostic}

theorem pushAll_eq_append (rules : SeverityRules) (more : List (String × Severity)) :
    rules.pushAll more = rules ++ more := by
  induction more generalizing rules with
  | nil => exact (List.append_nil rules).symm
  | cons rule rest ih =>
      have pushed : rules.pushAll (rule :: rest) = (rules ++ [rule]).pushAll rest := rfl
      rw [pushed, ih, List.append_assoc, List.singleton_append]

theorem resolve_pushAll (rules : SeverityRules) (more : List (String × Severity))
    (d : Diagnostic) :
    (rules.pushAll more).resolve d =
      ((rules.lookup d.code.text).or (more.lookup d.code.text)).getD
        (.ofCategory d.category) := by
  rw [pushAll_eq_append, resolve, List.lookup_append]

theorem lookup_eq_find? (rules : SeverityRules) (code : String) :
    rules.lookup code = (rules.find? fun rule => rule.1 = code).map (·.2) := by
  induction rules with
  | nil => rfl
  | cons rule rest ih =>
      obtain ⟨ruled, severity⟩ := rule
      by_cases same : code = ruled
      · subst same
        simp
      · have other : (code == ruled) = false := by simp [same]
        simp [List.lookup_cons, other, Ne.symm same, ih]

/-- A code that has a rule keeps its severity whatever is pushed. -/
theorem resolve_pushAll_of_mem (ruled : ∃ severity, (d.code.text, severity) ∈ rules)
    (more : List (String × Severity)) : (rules.pushAll more).resolve d = rules.resolve d := by
  obtain ⟨severity, mem⟩ := ruled
  have isRuled : (rules.lookup d.code.text).isSome = true :=
    List.lookup_isSome_iff.2 ⟨_, mem, BEq.rfl⟩
  rw [resolve_pushAll, resolve, Option.or_of_isSome isRuled]

/-- The rules for other codes can be left out. -/
theorem resolve_filter (rules : SeverityRules) (d : Diagnostic) :
    SeverityRules.resolve (rules.filter fun rule => rule.1 = d.code.text) d =
      rules.resolve d := by
  rw [resolve, resolve, Json.lookup_filter rules (fun k => k = d.code.text)]
  simp

theorem lookup_map_const (codes : List String) (severity : Severity) (code : String) :
    (codes.map fun code => (code, severity)).lookup code =
      if code ∈ codes then some severity else none := by
  induction codes with
  | nil => rfl
  | cons first rest ih =>
      by_cases same : code = first
      · subst same
        simp
      · have other : (code == first) = false := by simp [same]
        simp [List.lookup_cons, other, same, ih]

end SeverityRules

namespace Settings

/-- The rules for unused declarations, which stand in front of the overrides. -/
def unusedRules (s : Settings) : SeverityRules :=
  if s.unusedAsInfo then s.unusedCodes.map fun code => (code, Severity.info) else []

theorem severityRules_eq (s : Settings) :
    s.severityRules = s.unusedRules ++ s.severityOverrides.entries := rfl

theorem lookup_unusedRules (s : Settings) (code : String) :
    s.unusedRules.lookup code =
      if s.unusedAsInfo = true ∧ code ∈ s.unusedCodes then some .info else none := by
  unfold unusedRules
  cases s.unusedAsInfo with
  | false => simp
  | true => simp [SeverityRules.lookup_map_const]

theorem lookup_severityRules (s : Settings) (code : String) :
    s.severityRules.lookup code =
      if s.unusedAsInfo = true ∧ code ∈ s.unusedCodes then some .info
      else s.severityOverrides.get? code := by
  rw [severityRules_eq, List.lookup_append, lookup_unusedRules, SortedMap.lookup_entries]
  by_cases unused : s.unusedAsInfo = true ∧ code ∈ s.unusedCodes
  · rw [if_pos unused, if_pos unused, Option.some_or]
  · rw [if_neg unused, if_neg unused, Option.none_or]

theorem lookup_unusedRules_append_of_perm {s : Settings} {overrides : List (String × Severity)}
    (perm : overrides.Perm s.severityOverrides.entries) (code : String) :
    (s.unusedRules ++ overrides).lookup code = s.severityRules.lookup code := by
  rw [severityRules_eq, List.lookup_append, List.lookup_append,
    Json.lookup_eq_of_perm s.severityOverrides.nodup_keys perm]

/-- A code for unused declarations is information where the settings say so, else
an override counts, else the first rule pushed for the code, else the category.
So what is pushed changes no code that has a rule, rules for other codes change
nothing, and the overrides may stand in any order. -/
theorem resolve_severityRules (s : Settings) (pushed : List (String × Severity))
    (d : Diagnostic) :
    ((s.severityRules.pushAll pushed).resolve d =
        if s.unusedAsInfo = true ∧ d.code.text ∈ s.unusedCodes then .info
        else
          match s.severityOverrides.get? d.code.text with
          | some severity => severity
          | none =>
              match pushed.find? fun rule => rule.1 = d.code.text with
              | some rule => rule.2
              | none => .ofCategory d.category) ∧
      (∀ rules : SeverityRules, (∃ severity, (d.code.text, severity) ∈ rules) →
        ∀ more, (rules.pushAll more).resolve d = rules.resolve d) ∧
        (∀ rules : SeverityRules,
          SeverityRules.resolve (rules.filter fun rule => rule.1 = d.code.text) d =
            rules.resolve d) ∧
          ∀ overrides : List (String × Severity),
            overrides.Perm s.severityOverrides.entries →
              ((s.unusedRules ++ overrides).pushAll pushed).resolve d =
                (s.severityRules.pushAll pushed).resolve d := by
  refine ⟨?_, fun rules ruled more => SeverityRules.resolve_pushAll_of_mem ruled more,
    fun rules => SeverityRules.resolve_filter rules d, fun overrides perm => ?_⟩
  · rw [SeverityRules.resolve_pushAll, lookup_severityRules, SeverityRules.lookup_eq_find? pushed]
    by_cases unused : s.unusedAsInfo = true ∧ d.code.text ∈ s.unusedCodes
    · rw [if_pos unused, if_pos unused, Option.some_or, Option.getD_some]
    · rw [if_neg unused, if_neg unused]
      cases s.severityOverrides.get? d.code.text with
      | some severity => rfl
      | none =>
          cases pushed.find? fun rule => rule.1 = d.code.text with
          | some rule => rfl
          | none => rfl
  · rw [SeverityRules.resolve_pushAll, SeverityRules.resolve_pushAll,
      lookup_unusedRules_append_of_perm perm]

/-- A code in all three layers, and one in the last two. -/
def layered : Settings :=
  { standard with
    unusedAsInfo := true
    severityOverrides := .ofList [("6133", .error), ("5", .warning)] }

theorem resolve_severityRules_layered :
    ((∃ severity, ("6133", severity) ∈ layered.severityRules) ∧
        [("6133", Severity.error), ("5", .warning)].Perm layered.severityOverrides.entries) ∧
      (layered.severityRules.pushAll [("6133", .error), ("5", .error)]).resolve
          ⟨.suggestion, .number 6133, "x", none, none, true, none⟩ =
        layered.severityRules.resolve
          ⟨.suggestion, .number 6133, "x", none, none, true, none⟩ ∧
        ((layered.unusedRules ++ [("6133", Severity.error), ("5", .warning)]).pushAll
            [("5", .error)]).resolve ⟨.error, .name "5", "x", none, none, false, none⟩ =
          .warning := by
  have ruled : ∃ severity, ("6133", severity) ∈ layered.severityRules := ⟨.info, by decide +kernel⟩
  have perm : [("6133", Severity.error), ("5", .warning)].Perm
      layered.severityOverrides.entries := by decide +kernel
  obtain ⟨-, kept, -⟩ := resolve_severityRules layered []
    ⟨.suggestion, .number 6133, "x", none, none, true, none⟩
  obtain ⟨layers, -, -, anyOrder⟩ := resolve_severityRules layered [("5", .error)]
    ⟨.error, .name "5", "x", none, none, false, none⟩
  refine ⟨⟨ruled, perm⟩, kept _ ruled _, ?_⟩
  rw [anyOrder _ perm, layers]
  decide +kernel

end Settings

end DiagnosticFeed
