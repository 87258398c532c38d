import DiagnosticFeed.Json.Pretty
import DiagnosticFeed.Proofs.Json.Scanning

/-!
# Values over several lines

A layout puts blanks between the tokens of a value and changes nothing else, so
the value is read back from it (`parse?_pretty`).
-/

namespace DiagnosticFeed.Json

open Spread (blanks)

theorem isBlank_of_mem_newLine {depth : Nat} {c : Char} (mem : c ∈ newLine depth) :
    isBlank c = true := by
  rcases List.mem_cons.1 mem with rfl | indent
  · rfl
  · rw [List.eq_of_mem_replicate indent]
    rfl

/-- A token behind a new line. -/
theorem Spread.newLine {ts : List Token} {cs : List Char} (depth : Nat) (h : Spread ts cs) :
    Spread ts (newLine depth ++ cs) :=
  blanks (fun _ => isBlank_of_mem_newLine) h

/-- A key with its colon, the blank behind it, and a value. -/
theorem Spread.member (k : Option String) {ts ts' : List Token} {cs cs' : List Char}
    (value : Spread ts cs) (rest : Spread ts' cs') :
    Spread (.text k :: .colon :: (ts ++ ts')) (quoted k ++ ':' :: ' ' :: (cs ++ cs')) :=
  .token (.text k) (.token .colon (.blank rfl (value.append rest)))

mutual

theorem spread_flatText : (v : Json) → Spread v.tokens (flatText v)
  | .null => .single .null
  | .boolean b => .single (.boolean b)
  | .number n => .single (.number n)
  | .text content => .single (.text content)
  | .array [] => .flatMap_written [.openArray, .closeArray]
  | .array (v :: vs) => .token .openArray ((spread_flatText v).append (spread_flatElements vs))
  | .object [] => .flatMap_written [.openObject, .closeObject]
  | .object ((k, v) :: ms) => by
      have inside := Spread.member k (spread_flatText v) (spread_flatMembers ms)
      simpa [tokens, flatText, Token.written] using Spread.token .openObject (.blank rfl inside)

theorem spread_flatElements : (vs : List Json) → Spread (elementTokens vs) (flatElements vs)
  | [] => .token .closeArray .nil
  | v :: vs => .token .comma (.blank rfl ((spread_flatText v).append (spread_flatElements vs)))

theorem spread_flatMembers :
    (ms : List (Option String × Json)) → Spread (memberTokens ms) (flatMembers ms)
  | [] => .blank rfl (.token .closeObject .nil)
  | (k, v) :: ms => by
      have inside := Spread.member k (spread_flatText v) (spread_flatMembers ms)
      simpa [memberTokens, flatMembers, Token.written] using Spread.token .comma (.blank rfl inside)

end

mutual

theorem spread_tallText (layout : Layout) (depth : Nat) :
    (v : Json) → Spread v.tokens (tallText layout depth v)
  | .null => .single .null
  | .boolean b => .single (.boolean b)
  | .number n => .single (.number n)
  | .text content => .single (.text content)
  | .array [] => .flatMap_written [.openArray, .closeArray]
  | .array (v :: vs) => by
      rw [tallText]
      split
      · exact spread_flatText _
      · have inside := (spread_tallText layout (depth + 1) v).append
          (spread_tallElements layout depth vs)
        simpa [tokens, Token.written] using Spread.token .openArray (inside.newLine (depth + 1))
  | .object [] => .flatMap_written [.openObject, .closeObject]
  | .object ((k, v) :: ms) => by
      rw [tallText]
      split
      · exact spread_flatText _
      · have inside := Spread.member k (spread_tallText layout (depth + 1) v)
          (spread_tallMembers layout depth ms)
        simpa [tokens, Token.written] using Spread.token .openObject (inside.newLine (depth + 1))

theorem spread_tallElements (layout : Layout) (depth : Nat) :
    (vs : List Json) → Spread (elementTokens vs) (tallElements layout depth vs)
  | [] => (Spread.token .closeArray .nil).newLine depth
  | v :: vs => by
      have inside := (spread_tallText layout (depth + 1) v).append
        (spread_tallElements layout depth vs)
      simpa [elementTokens, tallElements, Token.written] using
        Spread.token .comma (inside.newLine (depth + 1))

theorem spread_tallMembers (layout : Layout) (depth : Nat) :
    (ms : List (Option String × Json)) → Spread (memberTokens ms) (tallMembers layout depth ms)
  | [] => (Spread.token .closeObject .nil).newLine depth
  | (k, v) :: ms => by
      have inside := Spread.member k (spread_tallText layout (depth + 1) v)
        (spread_tallMembers layout depth ms)
      simpa [memberTokens, tallMembers, Token.written] using
        Spread.token .comma (inside.newLine (depth + 1))

end

theorem spread_pretty (layout : Layout) (v : Json) :
    Spread v.tokens (v.pretty layout).toList := by
  rw [pretty, String.toList_ofList]
  exact spread_tallText layout 0 v

/-- A value is read back from every layout, also with a line feed behind it. -/
theorem parse?_pretty (layout : Layout) (v : Json) :
    parse? (v.pretty layout) = some v ∧ parse? (v.pretty layout ++ "\n") = some v := by
  have lineFeed : Spread [] ['\n'] := .blank rfl .nil
  have ended : Spread v.tokens (v.pretty layout ++ "\n").toList := by
    simpa using (spread_pretty layout v).append lineFeed
  exact ⟨parse?_of_spread (spread_pretty layout v), parse?_of_spread ended⟩

end DiagnosticFeed.Json
