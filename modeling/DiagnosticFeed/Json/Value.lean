/-!
# JSON values

The tree of a JSON text.  Object members keep their order and may repeat a
key, since what a repeated key means is for the reader of the object to say.
String literals are kept even when their escapes spell no text.
-/

namespace DiagnosticFeed

/-- A number as it is written: sign, whole part, digits behind the point, and
exponent (whether it is negative, and its size). -/
structure Json.Number where
  negative : Bool
  whole : Nat
  fraction : List (Fin 10)
  exponent : Option (Bool × Nat)
deriving DecidableEq

inductive Json where
  | null
  | boolean (value : Bool)
  | number (value : Json.Number)
  /-- A string literal, with no content if its escapes spell no text. -/
  | text (content : Option String)
  | array (elements : List Json)
  | object (members : List (Option String × Json))

namespace Json

def Number.ofNat (n : Nat) : Number := ⟨false, n, [], none⟩

def Number.toNat? : Number → Option Nat
  | ⟨false, n, [], none⟩ => some n
  | _ => none

@[simp]
theorem Number.toNat?_ofNat (n : Nat) : (ofNat n).toNat? = some n := rfl

def natural (n : Nat) : Json := .number (Number.ofNat n)

def string (s : String) : Json := .text (some s)

def strings (l : List String) : Json := .array (l.map string)

def knownMember {α : Type} (name : String) (value : α → Json) :
    Option α → List (String × Json)
  | none => []
  | some a => [(name, value a)]

def record (members : List (String × Json)) : Json :=
  .object (members.map fun m => (some m.1, m.2))

end Json

end DiagnosticFeed
