import DiagnosticFeed.Json.Token

/-!
# Values that fit into a buffer

An event is taken into a buffer before any part of it is interpreted.  A buffer
nests at most 127 deep, all texts in it are spelt out, and its numbers that are
no integers of 64 bits are kept as binary floating-point numbers, so they must
not exceed the greatest of these.
-/

namespace DiagnosticFeed.Json

/-! ## Binary floating-point numbers -/

/-- A natural number rounded to 53 significant bits, a tie going to the even
neighbour. -/
def roundedTo53 (n : Nat) : Nat :=
  if n < Nat.pow 2 53 then n
  else
    let unit := Nat.pow 2 (n.log2 - 52)
    let low := n / unit
    let excess := n % unit
    let up := if 2 * excess > unit ∨ (2 * excess = unit ∧ low % 2 = 1) then 1 else 0
    (low + up) * unit

/-- Rounding to 53 bits takes numbers from here on beyond the greatest binary
floating-point number. -/
def overflowBound : Nat := Nat.pow 2 1024 - Nat.pow 2 970

/-- The leading digits of a number: as many as fit into 64 bits, how many
further digits the whole part has, and how many of them stand behind the
point. -/
structure Leading where
  significand : Nat
  skipped : Nat
  behind : Nat

/-- Take in one digit of the whole part.  After the first digit that does not
fit, the rest only count. -/
def Leading.addWhole (l : Leading) (d : Fin 10) : Leading :=
  let next := l.significand * 10 + d.val
  if l.skipped = 0 ∧ next < UInt64.size then { l with significand := next }
  else { l with skipped := l.skipped + 1 }

/-- Take in the digits behind the point up to the first that does not fit. -/
def Leading.addFraction (l : Leading) : List (Fin 10) → Leading
  | [] => l
  | d :: rest =>
    let next := l.significand * 10 + d.val
    if next < UInt64.size then
      Leading.addFraction { l with significand := next, behind := l.behind + 1 } rest
    else l

namespace Number

def leading (n : Number) : Leading :=
  (((digits n.whole).map digitOf).foldl Leading.addWhole ⟨0, 0, 0⟩).addFraction n.fraction

/-- The power of ten that the leading digits are multiplied with. -/
def scale (n : Number) : Int :=
  let exponent : Int :=
    match n.exponent with
    | none => 0
    | some (true, size) => -size
    | some (false, size) => size
  exponent + n.leading.skipped - n.leading.behind

/-- Whether the number does not exceed the greatest binary floating-point
number.  The leading digits and the power of ten are rounded before they are
multiplied. -/
def isFinite (n : Number) : Bool :=
  match n.scale with
  | .negSucc _ => true
  | .ofNat scale =>
    n.leading.significand = 0 ||
      (scale ≤ 308 &&
        roundedTo53 n.leading.significand * roundedTo53 (Nat.pow 10 scale) < overflowBound)

end Number

/-! ## Buffers -/

def bufferDepth : Nat := 127

mutual

def fits (room : Nat) : Json → Bool
  | .number n => n.isFinite
  | .text content => content.isSome
  | .array vs => room ≠ 0 && elementsFit (room - 1) vs
  | .object ms => room ≠ 0 && membersFit (room - 1) ms
  | _ => true

def elementsFit (room : Nat) : List Json → Bool
  | [] => true
  | v :: vs => fits room v && elementsFit room vs

def membersFit (room : Nat) : List (Option String × Json) → Bool
  | [] => true
  | (k, v) :: ms => k.isSome && fits room v && membersFit room ms

end

def isBufferable (v : Json) : Bool := v.fits bufferDepth

end DiagnosticFeed.Json
