import DiagnosticFeed.Json.Value

/-!
# Records in JSON

A record is a fixed list of named fields.  It is read from an object, whose
members come in any order and may include unknown ones, or from an array, which
lists the fields in their order.  A field that is missing is for the field's
own rule to judge.

A value may come straight from a text (`Reading.direct`), or out of an event
that has been taken in as a whole (`Reading.buffered`); the two differ in what
they take for the empty content of a named choice.
-/

namespace DiagnosticFeed.Json

inductive Reading where
  | direct
  | buffered
deriving DecidableEq

structure Record where
  /-- The fields were listed in their order, without names. -/
  listed : Bool
  fields : List (String × Json)

/-- The members with their keys, if every key spells a text. -/
def keyed? (members : List (Option String × Json)) : Option (List (String × Json)) :=
  members.mapM fun (k, v) => k.map fun k => (k, v)

/-- The record with the named fields that a value gives.  Every key has to
spell a text, and no field may be given twice. -/
def record? (names : List String) : Json → Option Record
  | .array vs => if vs.length ≤ names.length then some ⟨true, names.zip vs⟩ else none
  | .object ms => do
    let members ← keyed? ms
    let fields := members.filter fun m => names.contains m.1
    if (fields.map (·.1)).Nodup then some ⟨false, fields⟩ else none
  | _ => none

namespace Record

def get? (r : Record) (name : String) : Option Json := r.fields.lookup name

variable {α : Type}

def required (r : Record) (name : String) (read : Json → Option α) : Option α :=
  (r.get? name).bind read

/-- A field with a value of its own when it is not given. -/
def orElse (r : Record) (name : String) (read : Json → Option α) (default : α) :
    Option α :=
  match r.get? name with
  | none => some default
  | some v => read v

def nullable (read : Json → Option α) : Json → Option (Option α)
  | .null => some none
  | v => (read v).map some

def optional (r : Record) (name : String) (read : Json → Option α) :
    Option (Option α) :=
  match r.get? name with
  | none => if r.listed then none else some none
  | some v => nullable read v

def omissible (r : Record) (name : String) (read : Json → Option α) :
    Option (Option α) :=
  r.orElse name (nullable read) none

end Record

/-! ## Single values -/

def toBool? : Json → Option Bool
  | .boolean b => some b
  | _ => none

def toText? : Json → Option String
  | .text content => content
  | _ => none

def toNat? : Json → Option Nat
  | .number n => n.toNat?
  | _ => none

def toUInt32? (v : Json) : Option UInt32 :=
  v.toNat?.bind fun n => if n < UInt32.size then some (UInt32.ofNat n) else none

def toUInt64? (v : Json) : Option UInt64 :=
  v.toNat?.bind fun n => if n < UInt64.size then some (UInt64.ofNat n) else none

def toList? {α : Type} (read : Json → Option α) : Json → Option (List α)
  | .array vs => vs.mapM read
  | _ => none

def isUnit (reading : Reading) : Json → Bool
  | .null => true
  | .object [] => reading = .buffered
  | _ => false

/-- The name of a choice without content: a text, or an object whose only
member has that key and the empty content. -/
def toChoice? (reading : Reading) : Json → Option String
  | .text content => content
  | .object [(k, v)] => if isUnit reading v then k else none
  | _ => none

end DiagnosticFeed.Json
