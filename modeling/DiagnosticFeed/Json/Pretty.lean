import DiagnosticFeed.Json.Token

/-!
# JSON over several lines

`Json.pretty` writes a value with one part on a line, two blanks deeper than
what holds it.  A `Layout` says which small values stay on one line.
-/

namespace DiagnosticFeed.Json

structure Layout where
  /-- Arrays, with all that is in them. -/
  flatArrays : Bool
  /-- Objects with a single member that is no object itself. -/
  flatSingletons : Bool

/-- Every part has a line of its own. -/
def Layout.tall : Layout := ⟨false, false⟩

/-- Lists and single facts stay on the line of their key. -/
def Layout.short : Layout := ⟨true, true⟩

def isObject : Json → Bool
  | .object _ => true
  | _ => false

def newLine (depth : Nat) : List Char := '\n' :: List.replicate (2 * depth) ' '

mutual

/-- A value on one line, with a blank behind each comma and colon. -/
def flatText : Json → List Char
  | .null => Token.null.written
  | .boolean b => (Token.boolean b).written
  | .number n => n.written
  | .text content => quoted content
  | .array [] => ['[', ']']
  | .array (v :: vs) => '[' :: flatText v ++ flatElements vs
  | .object [] => ['{', '}']
  | .object ((k, v) :: ms) =>
    '{' :: ' ' :: quoted k ++ ':' :: ' ' :: flatText v ++ flatMembers ms

def flatElements : List Json → List Char
  | [] => [']']
  | v :: vs => ',' :: ' ' :: flatText v ++ flatElements vs

def flatMembers : List (Option String × Json) → List Char
  | [] => [' ', '}']
  | (k, v) :: ms => ',' :: ' ' :: quoted k ++ ':' :: ' ' :: flatText v ++ flatMembers ms

end

mutual

/-- A value whose first line starts at a depth. -/
def tallText (layout : Layout) (depth : Nat) : Json → List Char
  | .null => Token.null.written
  | .boolean b => (Token.boolean b).written
  | .number n => n.written
  | .text content => quoted content
  | .array [] => ['[', ']']
  | .array (v :: vs) =>
    if layout.flatArrays then flatText (.array (v :: vs))
    else
      '[' :: newLine (depth + 1) ++ tallText layout (depth + 1) v ++
        tallElements layout depth vs
  | .object [] => ['{', '}']
  | .object ((k, v) :: ms) =>
    if layout.flatSingletons && ms.isEmpty && !v.isObject then
      flatText (.object ((k, v) :: ms))
    else
      '{' :: newLine (depth + 1) ++ quoted k ++ ':' :: ' ' ::
        tallText layout (depth + 1) v ++ tallMembers layout depth ms

def tallElements (layout : Layout) (depth : Nat) : List Json → List Char
  | [] => newLine depth ++ [']']
  | v :: vs =>
    ',' :: newLine (depth + 1) ++ tallText layout (depth + 1) v ++
      tallElements layout depth vs

def tallMembers (layout : Layout) (depth : Nat) :
    List (Option String × Json) → List Char
  | [] => newLine depth ++ ['}']
  | (k, v) :: ms =>
    ',' :: newLine (depth + 1) ++ quoted k ++ ':' :: ' ' ::
      tallText layout (depth + 1) v ++ tallMembers layout depth ms

end

def pretty (layout : Layout) (v : Json) : String := String.ofList (v.tallText layout 0)

end DiagnosticFeed.Json
