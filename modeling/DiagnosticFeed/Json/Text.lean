import DiagnosticFeed.Json.Token

/-!
# JSON texts

`Json.parse?` reads a text into a value and `Json.compact` writes a value as
text without blanks.  The reader works on tokens with a stack of the arrays and
objects that are still open, so a text may nest as deeply as it likes.
-/

namespace DiagnosticFeed.Json

/-! ## Writing -/

mutual

def tokens : Json → List Token
  | .null => [.null]
  | .boolean b => [.boolean b]
  | .number n => [.number n]
  | .text content => [.text content]
  | .array [] => [.openArray, .closeArray]
  | .array (v :: vs) => .openArray :: tokens v ++ elementTokens vs
  | .object [] => [.openObject, .closeObject]
  | .object ((k, v) :: ms) => .openObject :: .text k :: .colon :: tokens v ++ memberTokens ms

/-- The tokens of the elements behind the first, and of the end of the array. -/
def elementTokens : List Json → List Token
  | [] => [.closeArray]
  | v :: vs => .comma :: tokens v ++ elementTokens vs

/-- The tokens of the members behind the first, and of the end of the object. -/
def memberTokens : List (Option String × Json) → List Token
  | [] => [.closeObject]
  | (k, v) :: ms => .comma :: .text k :: .colon :: tokens v ++ memberTokens ms

end

def compact (v : Json) : String := String.ofList (v.tokens.flatMap Token.written)

/-! ## Reading -/

/-- An array, or an object with the key whose value comes next, that is still
open.  The parts so far stand with the latest first. -/
inductive Frame where
  | array (done : List Json)
  | object (done : List (Option String × Json)) (key : Option String)

/-- What has been read last, and so what may come next. -/
inductive Stage where
  | value
  /-- An array has been opened: its first element comes, or its end. -/
  | opened
  /-- A key has to come; the end of the object may come instead if it has just
  been opened. -/
  | key (opened : Bool) (done : List (Option String × Json))
  /-- A key has been read: a colon has to come. -/
  | colon (done : List (Option String × Json)) (key : Option String)
  | behind (value : Json)

/-- A reader in the middle of a text: what is still open, the innermost first,
and the stage that it has reached. -/
structure Reader where
  frames : List Frame
  stage : Stage

namespace Reader

def start : Reader := ⟨[], .value⟩

def begin? (frames : List Frame) : Token → Option Reader
  | .null => some ⟨frames, .behind .null⟩
  | .boolean b => some ⟨frames, .behind (.boolean b)⟩
  | .number n => some ⟨frames, .behind (.number n)⟩
  | .text content => some ⟨frames, .behind (.text content)⟩
  | .openArray => some ⟨.array [] :: frames, .opened⟩
  | .openObject => some ⟨frames, .key true []⟩
  | _ => none

def follow? (v : Json) : List Frame → Token → Option Reader
  | .array done :: frames, .comma => some ⟨.array (v :: done) :: frames, .value⟩
  | .array done :: frames, .closeArray =>
    some ⟨frames, .behind (.array (v :: done).reverse)⟩
  | .object done k :: frames, .comma => some ⟨frames, .key false ((k, v) :: done)⟩
  | .object done k :: frames, .closeObject =>
    some ⟨frames, .behind (.object ((k, v) :: done).reverse)⟩
  | _, _ => none

def step? (r : Reader) (t : Token) : Option Reader :=
  match r.stage, r.frames, t with
  | .value, frames, t => begin? frames t
  | .opened, .array _ :: frames, .closeArray => some ⟨frames, .behind (.array [])⟩
  | .opened, frames, t => begin? frames t
  | .key true _, frames, .closeObject => some ⟨frames, .behind (.object [])⟩
  | .key _ done, frames, .text k => some ⟨frames, .colon done k⟩
  | .key _ _, _, _ => none
  | .colon done k, frames, .colon => some ⟨.object done k :: frames, .value⟩
  | .colon _ _, _, _ => none
  | .behind v, frames, t => follow? v frames t

def result? : Reader → Option Json
  | ⟨[], .behind v⟩ => some v
  | _ => none

end Reader

def ofTokens? (ts : List Token) : Option Json :=
  (ts.foldlM Reader.step? Reader.start).bind Reader.result?

def parse? (text : String) : Option Json := (Token.scan text.toList).bind ofTokens?

/-! ## Reading what was written -/

/-- The first token of a value does not end an array. -/
theorem Reader.read_opened (frames : List Frame) (v : Json) :
    v.tokens.foldlM step? ⟨.array [] :: frames, .opened⟩ =
      v.tokens.foldlM step? ⟨.array [] :: frames, .value⟩ := by
  cases v with
  | array vs => cases vs <;> rfl
  | object ms => cases ms <;> rfl
  | _ => rfl

mutual

theorem Reader.read_tokens (frames : List Frame) : (v : Json) →
    v.tokens.foldlM step? ⟨frames, .value⟩ = some ⟨frames, .behind v⟩
  | .null => rfl
  | .boolean _ => rfl
  | .number _ => rfl
  | .text _ => rfl
  | .array [] => rfl
  | .array (v :: vs) => by
    have head := read_tokens (.array [] :: frames) v
    have tail := read_elementTokens frames [] v vs
    rw [← read_opened] at head
    simp only [tokens, List.foldlM_cons, List.foldlM_append, List.cons_append, step?,
      begin?, Option.bind_eq_bind, Option.bind_some, head, tail]
    rfl
  | .object [] => rfl
  | .object ((k, v) :: ms) => by
    have head := read_tokens (.object [] k :: frames) v
    have tail := read_memberTokens frames [] k v ms
    simp only [tokens, List.foldlM_cons, List.foldlM_append, List.cons_append, step?,
      begin?, Option.bind_eq_bind, Option.bind_some, head, tail]
    rfl

theorem Reader.read_elementTokens (frames : List Frame) (done : List Json) (v : Json) :
    (vs : List Json) →
    (elementTokens vs).foldlM step? ⟨.array done :: frames, .behind v⟩ =
      some ⟨frames, .behind (.array (done.reverse ++ v :: vs))⟩
  | [] => by simp [elementTokens, step?, follow?]
  | w :: vs => by
    have head := read_tokens (.array (v :: done) :: frames) w
    have tail := read_elementTokens frames (v :: done) w vs
    simp only [elementTokens, List.foldlM_cons, List.foldlM_append, List.cons_append, step?,
      follow?, Option.bind_eq_bind, Option.bind_some, head, tail]
    simp

theorem Reader.read_memberTokens (frames : List Frame)
    (done : List (Option String × Json)) (k : Option String) (v : Json) :
    (ms : List (Option String × Json)) →
    (memberTokens ms).foldlM step? ⟨.object done k :: frames, .behind v⟩ =
      some ⟨frames, .behind (.object (done.reverse ++ (k, v) :: ms))⟩
  | [] => by simp [memberTokens, step?, follow?]
  | (k', w) :: ms => by
    have head := read_tokens (.object ((k, v) :: done) k' :: frames) w
    have tail := read_memberTokens frames ((k, v) :: done) k' w ms
    simp only [memberTokens, List.foldlM_cons, List.foldlM_append, List.cons_append, step?,
      follow?, Option.bind_eq_bind, Option.bind_some, head, tail]
    simp

end

/-- Reading the tokens of a value gives the value. -/
theorem ofTokens?_tokens (v : Json) : ofTokens? v.tokens = some v := by
  rw [ofTokens?, Reader.start, Reader.read_tokens]
  rfl

end DiagnosticFeed.Json
