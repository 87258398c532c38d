import DiagnosticFeed.Diagnostic.Json
import DiagnosticFeed.Proofs.Json.Buffering
import DiagnosticFeed.Proofs.Json.Fields

/-!
# Diagnostics read back

A diagnostic is read back from the value that it is written as, whether that
comes straight from a text or out of a buffer, which it fits into. A code stays
what it was: a number is written with digits only, and a name as a text, though
it may consist of digits.
-/

namespace DiagnosticFeed

open Json (Reading Record)

theorem Location.ofJson?_toJson (l : Location) : Location.ofJson? l.toJson = some l := by
  obtain ⟨r, read, line, offset⟩ :=
    Json.exists_record?_counts "line" "offset" (by decide) l.line l.offset
  simp only [ofJson?, toJson, read, line, offset, Option.bind_eq_bind, Option.bind_some]
  rfl

theorem Location.fits_toJson (room : Nat) (l : Location) : l.toJson.fits (room + 1) = true :=
  Json.fits_counts "line" "offset" l.line l.offset

theorem Category.ofJson?_toJson (reading : Reading) (c : Category) :
    Category.ofJson? reading c.toJson = some c :=
  Category.ofName?_name c

theorem Code.ofJson?_toJson : (c : Code) → Code.ofJson? c.toJson = some c
  | number n => by
      have back := Json.toUInt32?_natural n
      simp only [toJson, Json.natural] at back ⊢
      simp only [ofJson?, back, Option.map_some]
  | name _ => rfl

theorem Code.fits_toJson (room : Nat) : (c : Code) → c.toJson.fits room = true
  | number n => Json.fits_natural n
  | name _ => rfl

namespace Diagnostic

def members (d : Diagnostic) : List (String × Json) :=
  [("category", d.category.toJson), ("code", d.code.toJson), ("text", .string d.text)] ++
    Json.knownMember "start" Location.toJson d.start ++
    Json.knownMember "end" Location.toJson d.stop ++
    (if d.reportsUnnecessary then [("reportsUnnecessary", .boolean true)] else []) ++
    Json.knownMember "source" Json.string d.source

theorem toJson_eq_record (d : Diagnostic) : d.toJson = .record d.members := rfl

theorem nodup_keys_members (d : Diagnostic) : (d.members.map (·.1)).Nodup := by
  have mark : ((if d.reportsUnnecessary then [("reportsUnnecessary", Json.boolean true)]
      else []).map (·.1)).Sublist ["reportsUnnecessary"] := by
    split <;> simp
  have keys : (d.members.map (·.1)).Sublist fieldNames := by
    simp only [members, List.map_append]
    exact ((((List.Sublist.refl ["category", "code", "text"]).append
      (Json.keys_knownMember_sublist "start" _ _)).append
      (Json.keys_knownMember_sublist "end" _ _)).append mark).append
      (Json.keys_knownMember_sublist "source" _ _)
  exact keys.nodup (by decide)

/-- Each member is found under its name. -/
theorem lookup_members (d : Diagnostic) :
    d.members.lookup "category" = some d.category.toJson ∧
      d.members.lookup "code" = some d.code.toJson ∧
      d.members.lookup "text" = some (.string d.text) ∧
      d.members.lookup "start" = d.start.map Location.toJson ∧
      d.members.lookup "end" = d.stop.map Location.toJson ∧
      d.members.lookup "reportsUnnecessary" =
        (if d.reportsUnnecessary then some (.boolean true) else none) ∧
      d.members.lookup "source" = d.source.map Json.string := by
  simp [members, List.lookup_append, List.lookup_cons, Json.lookup_knownMember,
    apply_ite (List.lookup _)]

theorem ofJson?_toJson (reading : Reading) (d : Diagnostic) :
    ofJson? reading d.toJson = some d := by
  obtain ⟨r, read, -, fields⟩ := Json.exists_record?_eq_of_perm fieldNames
    d.nodup_keys_members (.refl _)
  obtain ⟨category, code, text, start, stop, mark, source⟩ := d.lookup_members
  rw [← fields _ (by decide)] at category code text start stop mark source
  have locationBack (l : Location) :
      Record.nullable Location.ofJson? l.toJson = some (some l) :=
    Record.nullable_record l.ofJson?_toJson
  have sourceBack (s : String) : Record.nullable Json.toText? (.string s) = some (some s) := rfl
  have markBack : Json.toBool? (.boolean true) = some true := rfl
  simp only [ofJson?, toJson_eq_record, read, Option.bind_eq_bind, Option.bind_some,
    Record.required_of_get? category, Category.ofJson?_toJson,
    Record.required_of_get? code, Code.ofJson?_toJson, Record.required_of_get? text,
    Record.omissible_of_get? start locationBack, Record.omissible_of_get? stop locationBack,
    Record.orElse_of_get? mark markBack, Record.omissible_of_get? source sourceBack]
  cases marked : d.reportsUnnecessary <;> simp [Json.toText?, Json.string, ← marked]

theorem fits_toJson (room : Nat) (d : Diagnostic) : d.toJson.fits (room + 2) = true := by
  refine Json.fits_record fun m mem => ?_
  simp only [List.mem_append, List.mem_cons, List.not_mem_nil, or_false] at mem
  rcases mem with ((((rfl | rfl | rfl) | start) | stop) | mark) | source
  · rfl
  · exact d.code.fits_toJson (room + 1)
  · rfl
  · exact Json.fits_knownMember (Location.fits_toJson room) _ _ m start
  · exact Json.fits_knownMember (Location.fits_toJson room) _ _ m stop
  · split at mark
    · obtain rfl := List.mem_singleton.1 mark
      rfl
    · cases mark
  · exact Json.fits_knownMember (fun _ => rfl) _ _ m source

theorem ofText?_toText (d : Diagnostic) : ofText? d.toText = some d := by
  rw [ofText?, toText, Json.parse?_compact, Option.bind_some, ofJson?_toJson]

end Diagnostic

end DiagnosticFeed
