import DiagnosticFeed.Proofs.Json.Fields
import Mathlib.Algebra.Field.Rat
import Mathlib.Algebra.Order.Ring.Rat

/-!
# Values that a schema accepts

A schema is a value itself: an object whose keywords say what is accepted, or a truth
value that accepts everything or nothing. The keywords for types, choices, bounds,
elements and properties are read as draft 7 of JSON Schema does, each for the values
that it is about (`accepts`); all others are notes. What makes no sense in a schema
accepts nothing that it is asked about, so no value is accepted by a slip.

What a schema for objects accepts is said in terms of their members: each has to be
accepted by the schema with its name, or by the one for all others
(`accepts_object_iff`).
-/

namespace DiagnosticFeed.Json

/-! ## Parts of values -/

def Number.value (n : Number) : ℚ :=
  let digits : ℕ := n.fraction.foldl (fun m d => m * 10 + d.val) n.whole
  let exponent : ℤ :=
    match n.exponent with
    | none => 0
    | some (true, size) => -size
    | some (false, size) => size
  let size : ℚ := digits * 10 ^ (exponent - n.fraction.length)
  if n.negative then -size else size

@[simp]
theorem Number.value_ofNat (n : ℕ) : (ofNat n).value = n := by
  simp [value, ofNat]

def elements : Json → List Json
  | .array vs => vs
  | _ => []

def members : Json → List (Option String × Json)
  | .object ms => ms
  | _ => []

/-- Whether the value is of the type with some name. Among the numbers, integers are
those without a fractional part. -/
def hasType : Json → String → Bool
  | .null, "null" => true
  | .boolean _, "boolean" => true
  | .number _, "number" => true
  | .number n, "integer" => n.value.isInt
  | .text _, "string" => true
  | .array _, "array" => true
  | .object _, "object" => true
  | _, _ => false

mutual

/-- Whether two values are the same: numbers may be written differently, and members may
stand in another order. -/
def same : Json → Json → Bool
  | .null, .null => true
  | .boolean a, .boolean b => a = b
  | .number a, .number b => a.value = b.value
  | .text (some a), .text (some b) => a = b
  | .array vs, .array ws => vs.length = ws.length && sameElements vs ws
  | .object ms, .object ns => ms.length = ns.length && sameMembers ms ns
  | _, _ => false

def sameElements : List Json → List Json → Bool
  | v :: vs, w :: ws => same v w && sameElements vs ws
  | _, _ => true

def sameMembers : List (Option String × Json) → List (Option String × Json) → Bool
  | [], _ => true
  | (k, v) :: ms, ns => (ns.any fun n => n.1 = k && same v n.2) && sameMembers ms ns

end

/-! ## Schemas -/

def propertyNames (keywords : List (Option String × Json)) : List (Option String) :=
  (keywords.filter (·.1 = some "properties")).flatMap fun k => k.2.members.map (·.1)

mutual

def accepts : Json → Json → Bool
  | .boolean b, _ => b
  | .object keywords, v => keywordsAccept (propertyNames keywords) keywords v
  | _, _ => false

def keywordsAccept (named : List (Option String)) : List (Option String × Json) → Json → Bool
  | [], _ => true
  | keyword :: rest, v => keywordAccepts named keyword v && keywordsAccept named rest v

def keywordAccepts (named : List (Option String)) : Option String × Json → Json → Bool
  | (some "type", .text (some name)), v => v.hasType name
  | (some "type", .array names), v => names.any fun
    | .text (some name) => v.hasType name
    | _ => false
  | (some "type", _), _ => false
  | (some "enum", .array choices), v => choices.any (same v)
  | (some "enum", _), _ => false
  | (some "minimum", .number least), .number n => least.value ≤ n.value
  | (some "minimum", .number _), _ => true
  | (some "minimum", _), _ => false
  | (some "items", .array schemas), v => positionsAccept schemas v.elements
  | (some "items", schema), v => v.elements.all (accepts schema)
  | (some "properties", .object schemas), v => propertiesAccept schemas v.members
  | (some "properties", _), _ => false
  | (some "additionalProperties", schema), v =>
    v.members.all fun m => m.1 ∈ named || accepts schema m.2
  | _, _ => true

def positionsAccept : List Json → List Json → Bool
  | schema :: schemas, v :: vs => accepts schema v && positionsAccept schemas vs
  | _, _ => true

def propertiesAccept : List (Option String × Json) → List (Option String × Json) → Bool
  | [], _ => true
  | (name, schema) :: rest, ms =>
    (ms.all fun m => m.1 ≠ name || accepts schema m.2) && propertiesAccept rest ms

end

/-! ## Keywords -/

variable {named : List (Option String)}

/-- The keywords that a value can fail. -/
def assertions : List String :=
  ["type", "enum", "minimum", "items", "properties", "additionalProperties"]

theorem keywordAccepts_of_note {name : String} (note : name ∉ assertions) (argument v : Json) :
    keywordAccepts named (some name, argument) v = true := by
  simp only [assertions, List.mem_cons, List.not_mem_nil, or_false, not_or] at note
  simp [keywordAccepts, note]

theorem keywordAccepts_type (name : String) (v : Json) :
    keywordAccepts named ("type", string name) v = v.hasType name := by
  simp [keywordAccepts, string]

/-- A text is accepted if it is one of the choices. -/
theorem keywordAccepts_enum_strings (choices : List String) (s : String) :
    keywordAccepts named ("enum", strings choices) (string s) = decide (s ∈ choices) := by
  have chosen (choice : String) : same (string s) (string choice) = decide (s = choice) := by
    simp [same, string]
  rw [Bool.eq_iff_iff, strings, keywordAccepts, List.any_map, List.any_eq_true, decide_eq_true_iff]
  simp [chosen]

theorem keywordAccepts_minimum_natural (least n : ℕ) :
    keywordAccepts named ("minimum", natural least) (natural n) = decide (least ≤ n) := by
  simp [keywordAccepts, natural]

/-- A list of texts is accepted if all of them are. -/
theorem keywordAccepts_items_strings (keywords : List (String × Json)) (l : List String) :
    keywordAccepts named ("items", record keywords) (strings l) =
      l.all fun s => (record keywords).accepts (string s) := by
  simp [keywordAccepts, record, strings, elements, Function.comp_def]

theorem propertiesAccept_iff {schemas ms : List (Option String × Json)} :
    propertiesAccept schemas ms = true ↔
      ∀ s ∈ schemas, ∀ m ∈ ms, m.1 = s.1 → s.2.accepts m.2 = true := by
  induction schemas with
  | nil => simp [propertiesAccept]
  | cons s rest ih =>
      obtain ⟨name, schema⟩ := s
      rw [propertiesAccept, Bool.and_eq_true, ih, List.forall_mem_cons, List.all_eq_true]
      refine and_congr_left fun _ => forall₂_congr fun m _ => ?_
      rw [Bool.or_eq_true, decide_eq_true_iff, or_iff_not_imp_left, not_not]

theorem keywordAccepts_properties_iff {properties members : List (String × Json)} :
    keywordAccepts named ("properties", record properties) (record members) = true ↔
      ∀ p ∈ properties, ∀ m ∈ members, m.1 = p.1 → p.2.accepts m.2 = true := by
  rw [record, record, keywordAccepts, Json.members, propertiesAccept_iff]
  simp only [List.forall_mem_map, Option.some_inj]

theorem keywordAccepts_additionalProperties_iff {schema : Json} {members : List (String × Json)} :
    keywordAccepts named ("additionalProperties", schema) (record members) = true ↔
      ∀ m ∈ members, some m.1 ∉ named → schema.accepts m.2 = true := by
  rw [keywordAccepts, record, Json.members, List.all_eq_true, List.forall_mem_map]
  simp only [Bool.or_eq_true, decide_eq_true_iff, or_iff_not_imp_left]

/-! ## Schemas as a whole -/

theorem keywordsAccept_iff {keywords : List (Option String × Json)} {v : Json} :
    keywordsAccept named keywords v = true ↔
      ∀ keyword ∈ keywords, keywordAccepts named keyword v = true := by
  induction keywords with
  | nil => simp [keywordsAccept]
  | cons keyword rest ih => simp [keywordsAccept, ih]

/-- A value is accepted if it fails none of the keywords that it could fail. -/
theorem accepts_record_iff {keywords : List (String × Json)} {v : Json} :
    (record keywords).accepts v = true ↔ ∀ k ∈ keywords, k.1 ∈ assertions →
      keywordAccepts (propertyNames (record keywords).members) (some k.1, k.2) v = true := by
  rw [record, accepts, keywordsAccept_iff, List.forall_mem_map]
  refine forall₂_congr fun k _ => ⟨fun accepted _ => accepted, fun accepted => ?_⟩
  by_cases note : k.1 ∈ assertions
  · exact accepted note
  · exact keywordAccepts_of_note note _ _

/-- Where a type is all that is asked for, every value of that type is accepted. -/
theorem accepts_typed {notes : List (String × Json)} (h : ∀ k ∈ notes, k.1 ∉ assertions)
    (name : String) (v : Json) :
    (record (("type", string name) :: notes)).accepts v = v.hasType name := by
  rw [Bool.eq_iff_iff, accepts_record_iff, List.forall_mem_cons, keywordAccepts_type,
    forall_prop_of_true (by simp [assertions])]
  exact and_iff_left fun k mem assertion => absurd assertion (h k mem)

/-- Keywords that ask for no more than an object. -/
def AskForObject (front : List (String × Json)) : Prop :=
  ∀ k ∈ front, k.1 ∈ assertions → k = ("type", .string "object")

namespace AskForObject

variable {front : List (String × Json)}

theorem described (description : Json) :
    AskForObject [("type", .string "object"), ("description", description)] := by
  simp [AskForObject, assertions]

theorem accept (h : AskForObject front) (members : List (String × Json)) :
    ∀ k ∈ front, k.1 ∈ assertions →
      keywordAccepts named (some k.1, k.2) (record members) = true := by
  intro k mem assertion
  obtain rfl := h k mem assertion
  rw [keywordAccepts_type]
  rfl

theorem propertyNames_append (h : AskForObject front) (rest : List (String × Json)) :
    propertyNames (record (front ++ rest)).members = propertyNames (record rest).members := by
  have none' : front.filter (fun k => some k.1 = some "properties") = [] := by
    rw [List.filter_eq_nil_iff]
    intro k mem
    rw [decide_eq_true_iff, Option.some_inj]
    intro properties
    obtain rfl := h k mem (by simp [properties, assertions])
    simp at properties
  simp only [propertyNames, record, members, List.map_append, List.filter_append, List.filter_map,
    Function.comp_def, none', List.map_nil, List.nil_append]

end AskForObject

section

variable {front properties members : List (String × Json)} {more : Json}

/-- An object is accepted if each of its members is accepted by the schema with its
name, and by the schema for all others if there is none. -/
theorem accepts_object_iff (plain : AskForObject front) (nodup : (properties.map (·.1)).Nodup) :
    (record (front ++ [("properties", record properties), ("additionalProperties", more)])).accepts
        (record members) = true ↔
      ∀ m ∈ members, ((properties.lookup m.1).getD more).accepts m.2 = true := by
  have names : propertyNames (record [("properties", record properties),
      ("additionalProperties", more)]).members = properties.map fun p => some p.1 := by
    simp [propertyNames, record, Json.members]
  rw [accepts_record_iff, plain.propertyNames_append, names, List.forall_mem_append,
    and_iff_right (plain.accept members), List.forall_mem_cons, List.forall_mem_singleton,
    keywordAccepts_properties_iff, keywordAccepts_additionalProperties_iff,
    forall_prop_of_true (by simp [assertions]), forall_prop_of_true (by simp [assertions])]
  constructor
  · rintro ⟨own, others⟩ m mem
    cases found : properties.lookup m.1 with
    | some schema => exact own _ ((lookup_eq_some_iff_mem nodup).1 found) m mem rfl
    | none =>
        refine others m mem fun listed => ?_
        obtain ⟨p, mem', same⟩ := List.mem_map.1 listed
        have absent := List.lookup_eq_none_iff.1 found p mem'
        simp [Option.some_inj.1 same] at absent
  · intro all
    refine ⟨fun p mem' m mem same => ?_, fun m mem unlisted => ?_⟩
    · have found := (lookup_eq_some_iff_mem nodup).2 mem'
      have accepted := all m mem
      rwa [same, found] at accepted
    · have accepted := all m mem
      cases found : properties.lookup m.1 with
      | none => rwa [found] at accepted
      | some schema =>
          have listed := (lookup_eq_some_iff_mem nodup).1 found
          exact absurd (List.mem_map.2 ⟨_, listed, rfl⟩) unlisted

/-- Where no properties are named, all members are for the other schema. -/
theorem accepts_additional_iff (plain : AskForObject front) :
    (record (front ++ [("additionalProperties", more)])).accepts (record members) = true ↔
      ∀ m ∈ members, more.accepts m.2 = true := by
  have names : propertyNames (record [("additionalProperties", more)]).members = [] := by
    simp [propertyNames, record, Json.members]
  rw [accepts_record_iff, plain.propertyNames_append, names, List.forall_mem_append,
    and_iff_right (plain.accept members), List.forall_mem_singleton,
    keywordAccepts_additionalProperties_iff, forall_prop_of_true (by simp [assertions])]
  simp only [List.not_mem_nil, not_false_eq_true, true_imp_iff]

end

end DiagnosticFeed.Json
