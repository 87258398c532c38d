import DiagnosticFeed.Json.Value

/-!
# JSON tokens

A JSON text is a sequence of tokens with blanks between them.  `Token.written`
writes a token and `Token.scan` reads all tokens of a text.  The grammar is the
strict one: no leading zeros, at least one digit behind a point or an exponent
mark, no control characters inside a string literal, and no blanks other than
space, tab and the two line ends.
-/

namespace DiagnosticFeed.Json

inductive Token where
  | null
  | boolean (value : Bool)
  | number (value : Number)
  | text (content : Option String)
  | comma
  | colon
  | openArray
  | closeArray
  | openObject
  | closeObject
deriving DecidableEq

/-! ## Digits -/

def digits (n : Nat) : List Char := Nat.toDigits 10 n

def ofDigits (cs : List Char) : Nat := Nat.ofDigitChars 10 cs 0

def digitOf (c : Char) : Fin 10 := Fin.ofNat 10 (c.toNat - 48)

def digitChar (d : Fin 10) : Char := Nat.digitChar d.val

def hexValue? (c : Char) : Option Nat :=
  if c.isDigit then some (c.toNat - 48)
  else if 'a' ≤ c ∧ c ≤ 'f' then some (c.toNat - 87)
  else if 'A' ≤ c ∧ c ≤ 'F' then some (c.toNat - 55)
  else none

def hexValue4? (a b c d : Char) : Option Nat := do
  let a ← hexValue? a
  let b ← hexValue? b
  let c ← hexValue? c
  let d ← hexValue? d
  return 4096 * a + 256 * b + 16 * c + d

/-! ## String literals -/

/-- A piece of a string literal: a character, written as itself or with a short
escape, or a 16-bit unit written with four hexadecimal digits. -/
inductive Glyph where
  | char (c : Char)
  | unit (code : Nat)

def shortEscape? : Char → Option Char
  | '"' => some '"'
  | '\\' => some '\\'
  | '/' => some '/'
  | 'b' => some '\x08'
  | 'f' => some '\x0c'
  | 'n' => some '\n'
  | 'r' => some '\r'
  | 't' => some '\t'
  | _ => none

/-- Read the pieces of a string literal up to its closing quote, behind the
pieces that are done already, the latest first. -/
def Glyph.scan (done : List Glyph) : List Char → Option (List Glyph × List Char)
  | [] => none
  | '"' :: rest => some (done.reverse, rest)
  | '\\' :: 'u' :: a :: b :: c :: d :: rest =>
    match hexValue4? a b c d with
    | some code => scan (.unit code :: done) rest
    | none => none
  | '\\' :: e :: rest =>
    match shortEscape? e with
    | some c => scan (.char c :: done) rest
    | none => none
  | c :: rest => if c < ' ' then none else scan (.char c :: done) rest

/-- The character that two units write together, the first from the high and
the second from the low half of the surrogates. -/
def pairChar? (high low : Nat) : Option Char :=
  if high < 0xDC00 ∧ 0xDC00 ≤ low ∧ low < 0xE000 then
    some (Char.ofNat (0x10000 + (high - 0xD800) * 0x400 + (low - 0xDC00)))
  else none

/-- The text that the pieces spell, behind the characters that are done
already, the latest first.  A surrogate without its other half spells no
text. -/
def Glyph.spell (done : List Char) : List Glyph → Option String
  | [] => some (String.ofList done.reverse)
  | .char c :: rest => spell (c :: done) rest
  | .unit code :: rest =>
    if code < 0xD800 ∨ 0xE000 ≤ code then spell (Char.ofNat code :: done) rest
    else
      match rest with
      | .unit low :: rest =>
        match pairChar? code low with
        | some c => spell (c :: done) rest
        | none => none
      | _ => none

/-- A character inside a string literal.  Quotes, backslashes and control
characters are escaped, and all else is written as itself. -/
def escaped (c : Char) : List Char :=
  if c = '"' then ['\\', '"']
  else if c = '\\' then ['\\', '\\']
  else if c = '\x08' then ['\\', 'b']
  else if c = '\x0c' then ['\\', 'f']
  else if c = '\n' then ['\\', 'n']
  else if c = '\r' then ['\\', 'r']
  else if c = '\t' then ['\\', 't']
  else if c < ' ' then
    ['\\', 'u', '0', '0', Nat.digitChar (c.toNat / 16), Nat.digitChar (c.toNat % 16)]
  else [c]

/-! ## Numbers -/

def scanExponent (negative : Bool) (whole : Nat) (fraction : List (Fin 10))
    (cs : List Char) : Option (Number × List Char) :=
  match cs with
  | e :: rest =>
    if e = 'e' ∨ e = 'E' then
      let (below, rest) := match rest with
        | '-' :: rest => (true, rest)
        | '+' :: rest => (false, rest)
        | _ => (false, rest)
      let size := rest.takeWhile Char.isDigit
      if size = [] then none
      else some (⟨negative, whole, fraction, some (below, ofDigits size)⟩,
        rest.dropWhile Char.isDigit)
    else some (⟨negative, whole, fraction, none⟩, cs)
  | [] => some (⟨negative, whole, fraction, none⟩, [])

def scanFraction (negative : Bool) (whole : Nat) (cs : List Char) :
    Option (Number × List Char) :=
  match cs with
  | '.' :: rest =>
    let fraction := rest.takeWhile Char.isDigit
    if fraction = [] then none
    else scanExponent negative whole (fraction.map digitOf) (rest.dropWhile Char.isDigit)
  | _ => scanExponent negative whole [] cs

/-- Read a number behind its sign.  A leading zero is a whole part of its
own. -/
def scanUnsigned (negative : Bool) (cs : List Char) : Option (Number × List Char) :=
  match cs with
  | '0' :: rest => scanFraction negative 0 rest
  | d :: _ =>
    if d.isDigit then
      scanFraction negative (ofDigits (cs.takeWhile Char.isDigit))
        (cs.dropWhile Char.isDigit)
    else none
  | [] => none

def Number.written (n : Number) : List Char :=
  (if n.negative then ['-'] else []) ++ digits n.whole ++
    (match n.fraction with
      | [] => []
      | fraction => '.' :: fraction.map digitChar) ++
    (match n.exponent with
      | none => []
      | some (below, size) => 'e' :: (if below then ['-'] else []) ++ digits size)

/-! ## Tokens -/

def isBlank (c : Char) : Bool := c = ' ' ∨ c = '\t' ∨ c = '\n' ∨ c = '\r'

/-- A string literal.  Content that is no text is written as one half of a
pair of surrogates. -/
def quoted : Option String → List Char
  | some s => '"' :: s.toList.flatMap escaped ++ ['"']
  | none => ['"', '\\', 'u', 'd', '8', '0', '0', '"']

namespace Token

def written : Token → List Char
  | null => ['n', 'u', 'l', 'l']
  | boolean true => ['t', 'r', 'u', 'e']
  | boolean false => ['f', 'a', 'l', 's', 'e']
  | number n => n.written
  | text content => quoted content
  | comma => [',']
  | colon => [':']
  | openArray => ['[']
  | closeArray => [']']
  | openObject => ['{']
  | closeObject => ['}']

def next? : List Char → Option (Token × List Char)
  | ',' :: rest => some (comma, rest)
  | ':' :: rest => some (colon, rest)
  | '[' :: rest => some (openArray, rest)
  | ']' :: rest => some (closeArray, rest)
  | '{' :: rest => some (openObject, rest)
  | '}' :: rest => some (closeObject, rest)
  | 'n' :: 'u' :: 'l' :: 'l' :: rest => some (null, rest)
  | 't' :: 'r' :: 'u' :: 'e' :: rest => some (boolean true, rest)
  | 'f' :: 'a' :: 'l' :: 's' :: 'e' :: rest => some (boolean false, rest)
  | '"' :: rest =>
    (Glyph.scan [] rest).map fun (glyphs, rest) => (text (Glyph.spell [] glyphs), rest)
  | '-' :: rest => (scanUnsigned true rest).map fun (n, rest) => (number n, rest)
  | cs => (scanUnsigned false cs).map fun (n, rest) => (number n, rest)

/-- Read up to `fuel` tokens behind the tokens that are done already, the
latest first. -/
def scanUpTo (fuel : Nat) (done : List Token) (cs : List Char) : Option (List Token) :=
  match fuel, cs.dropWhile isBlank with
  | _, [] => some done.reverse
  | 0, _ => none
  | fuel + 1, cs =>
    match next? cs with
    | some (t, rest) => scanUpTo fuel (t :: done) rest
    | none => none

/-- All tokens of a text, or nothing if some part of it is no token.  A token
takes at least one character, which bounds their number. -/
def scan (cs : List Char) : Option (List Token) := scanUpTo cs.length [] cs

end Token

end DiagnosticFeed.Json
