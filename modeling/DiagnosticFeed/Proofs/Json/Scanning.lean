import DiagnosticFeed.Json.Text
import Mathlib.Data.List.Chain

/-!
# Scanning what was written

Every value is read back from the text that it is written as (`parse?_compact`),
whatever characters its texts hold, and wherever blanks stand between its tokens
(`parse?_of_spread`). Tokens are told apart by their first characters, and only a
number could go on into the token behind it; no value writes two numbers side by
side. What is written has no control characters.
-/

namespace DiagnosticFeed.Json

/-! ## Numbers -/

theorem isDigit_of_mem_digits {n : Nat} {c : Char} (h : c ∈ digits n) : c.isDigit = true :=
  Nat.isDigit_of_mem_toDigits (by decide) (by decide) h

theorem ofDigits_digits (n : Nat) : ofDigits (digits n) = n := Nat.ofDigitChars_ten_toDigits

/-- Only zero is written with a zero in front. -/
theorem digits_cases (n : Nat) :
    n = 0 ∧ digits n = ['0'] ∨ ∃ c rest, digits n = c :: rest ∧ c ≠ '0' ∧ c.isDigit = true := by
  have first : n = 0 ∧ digits n = ['0'] ∨ ∃ c rest, digits n = c :: rest ∧ c ≠ '0' := by
    induction n using Nat.strongRecOn with
    | ind n ih =>
        by_cases small : n < 10
        · have one : digits n = [n.digitChar] := Nat.toDigits_of_lt_base small
          have digit : ∀ d < 10, d = 0 ∨ d.digitChar ≠ '0' := by decide
          rcases digit n small with rfl | notZero
          · exact Or.inl ⟨rfl, rfl⟩
          · exact Or.inr ⟨_, [], one, notZero⟩
        · have split : digits n = digits (n / 10) ++ [(n % 10).digitChar] :=
            Nat.toDigits_of_base_le (by decide) (by omega)
          rcases ih (n / 10) (by omega) with ⟨zero, -⟩ | ⟨c, rest, eq, notZero⟩
          · omega
          · exact Or.inr ⟨c, rest ++ _, by rw [split, eq, List.cons_append], notZero⟩
  rcases first with zero | ⟨c, rest, eq, notZero⟩
  · exact Or.inl zero
  · exact Or.inr ⟨c, rest, eq, notZero, isDigit_of_mem_digits (eq ▸ List.mem_cons_self)⟩

theorem exists_digit (n : Nat) : ∃ c rest, digits n = c :: rest ∧ c.isDigit = true := by
  rcases digits_cases n with ⟨-, eq⟩ | ⟨c, rest, eq, -, digit⟩
  · exact ⟨'0', [], eq, rfl⟩
  · exact ⟨c, rest, eq, digit⟩

theorem digitOf_digitChar : ∀ d : Fin 10, digitOf (digitChar d) = d := by decide

theorem isDigit_digitChar : ∀ d : Fin 10, (digitChar d).isDigit = true := by decide

theorem span_digits {ds rest : List Char} (all : ∀ c ∈ ds, c.isDigit = true)
    (stop : ∀ c, rest.head? = some c → c.isDigit = false) :
    (ds ++ rest).takeWhile Char.isDigit = ds ∧ (ds ++ rest).dropWhile Char.isDigit = rest := by
  have none' : rest.takeWhile Char.isDigit = [] ∧ rest.dropWhile Char.isDigit = rest := by
    cases rest with
    | nil => exact ⟨rfl, rfl⟩
    | cons c rest => simp [stop c rfl]
  rw [List.takeWhile_append_of_pos all, List.dropWhile_append_of_pos all, none'.1, none'.2]
  exact ⟨List.append_nil ds, rfl⟩

/-- Text that cannot belong to a number in front of it. -/
def EndsNumber (rest : List Char) : Prop :=
  ∀ c, rest.head? = some c → c.isDigit = false ∧ c ≠ '.' ∧ c ≠ 'e' ∧ c ≠ 'E'

def exponentText : Option (Bool × Nat) → List Char
  | none => []
  | some (below, size) => 'e' :: (if below then ['-'] else []) ++ digits size

def fractionText : List (Fin 10) → List Char
  | [] => []
  | fraction => '.' :: fraction.map digitChar

theorem written_eq (n : Number) :
    n.written = (if n.negative then ['-'] else []) ++
      (digits n.whole ++ (fractionText n.fraction ++ exponentText n.exponent)) := by
  obtain ⟨negative, whole, fraction, exponent⟩ := n
  cases fraction <;> cases exponent <;> simp [Number.written, fractionText, exponentText]

section

variable {rest : List Char} (ends : EndsNumber rest)
include ends

theorem not_isDigit_head_exponentText (exponent : Option (Bool × Nat)) :
    ∀ c, (exponentText exponent ++ rest).head? = some c → c.isDigit = false := by
  intro c head
  cases exponent with
  | none => exact (ends c head).1
  | some exponent =>
      obtain rfl := Option.some_inj.1 head
      rfl

theorem scanExponent_exponentText (negative : Bool) (whole : Nat) (fraction : List (Fin 10))
    (exponent : Option (Bool × Nat)) :
    scanExponent negative whole fraction (exponentText exponent ++ rest) =
      some (⟨negative, whole, fraction, exponent⟩, rest) := by
  cases exponent with
  | none =>
      cases rest with
      | nil => rfl
      | cons c rest =>
          obtain ⟨-, -, notSmall, notBig⟩ := ends c rfl
          simp [exponentText, scanExponent, notSmall, notBig]
  | some exponent =>
      obtain ⟨below, size⟩ := exponent
      obtain ⟨taken, left⟩ := span_digits (fun _ mem => isDigit_of_mem_digits (n := size) mem)
        (fun c head => (ends c head).1)
      obtain ⟨c, more, eq, digit⟩ := exists_digit size
      have some' : digits size ≠ [] := by simp [eq]
      have notSign : c ≠ '-' ∧ c ≠ '+' := by
        constructor <;> rintro rfl <;> cases digit
      cases below with
      | true => simp [exponentText, scanExponent, taken, left, some', ofDigits_digits]
      | false =>
          rw [eq, List.cons_append] at taken left
          rw [exponentText, if_neg Bool.false_ne_true, eq]
          simp [scanExponent, notSign, taken, left]
          rw [← eq, ofDigits_digits]

theorem scanFraction_fractionText (negative : Bool) (whole : Nat) (fraction : List (Fin 10))
    (exponent : Option (Bool × Nat)) :
    scanFraction negative whole (fractionText fraction ++ (exponentText exponent ++ rest)) =
      some (⟨negative, whole, fraction, exponent⟩, rest) := by
  have exponentScanned := scanExponent_exponentText ends negative whole fraction exponent
  cases fraction with
  | nil =>
      cases exponent with
      | some exponent => exact exponentScanned
      | none =>
          cases rest with
          | nil => exact exponentScanned
          | cons c rest =>
              have notPoint := (ends c rfl).2.1
              rw [← exponentScanned]
              simp [fractionText, exponentText, scanFraction, notPoint]
  | cons d ds =>
      have all : ∀ c ∈ (d :: ds).map digitChar, c.isDigit = true := by simp [isDigit_digitChar]
      obtain ⟨taken, left⟩ := span_digits all (not_isDigit_head_exponentText ends exponent)
      have digits' : ((d :: ds).map digitChar).map digitOf = d :: ds := by
        simp [Function.comp_def, digitOf_digitChar]
      rw [fractionText, List.cons_append]
      · simp only [scanFraction, taken, left, digits', exponentScanned]
        simp
      · simp

theorem not_isDigit_head_fractionText (fraction : List (Fin 10)) (exponent : Option (Bool × Nat)) :
    ∀ c, (fractionText fraction ++ (exponentText exponent ++ rest)).head? = some c →
      c.isDigit = false := by
  cases fraction with
  | nil => exact not_isDigit_head_exponentText ends exponent
  | cons d ds =>
      intro c head
      obtain rfl := Option.some_inj.1 head
      rfl

/-- A number is read back up to where its text ends. -/
theorem scanUnsigned_digits (n : Number) :
    scanUnsigned n.negative
        (digits n.whole ++ (fractionText n.fraction ++ (exponentText n.exponent ++ rest))) =
      some (n, rest) := by
  obtain ⟨negative, whole, fraction, exponent⟩ := n
  have behind := scanFraction_fractionText ends negative whole fraction exponent
  rcases digits_cases whole with ⟨rfl, zero⟩ | ⟨c, more, eq, notZero, digit⟩
  · rw [zero]
    exact behind
  · obtain ⟨taken, left⟩ := span_digits (fun _ mem => isDigit_of_mem_digits (n := whole) mem)
      (not_isDigit_head_fractionText ends fraction exponent)
    rw [eq, List.cons_append] at taken left ⊢
    simp only [scanUnsigned, digit, if_true, taken, left]
    rw [← eq, ofDigits_digits]
    exact behind

end

/-! ## String literals -/

def glyph (c : Char) : Glyph :=
  if c < ' ' ∧ c ∉ ['\x08', '\x0c', '\n', '\r', '\t'] then .unit c.toNat else .char c

theorem hexValue4?_control : ∀ n < 32,
    hexValue4? '0' '0' (Nat.digitChar (n / 16)) (Nat.digitChar (n % 16)) = some n := by decide

theorem scan_escaped (done : List Glyph) (c : Char) (rest : List Char) :
    Glyph.scan done (escaped c ++ rest) = Glyph.scan (glyph c :: done) rest := by
  by_cases short : c ∈ ['"', '\\', '\x08', '\x0c', '\n', '\r', '\t']
  · simp only [List.mem_cons, List.not_mem_nil, or_false] at short
    rcases short with rfl | rfl | rfl | rfl | rfl | rfl | rfl <;> rfl
  · simp only [List.mem_cons, List.not_mem_nil, or_false, not_or] at short
    by_cases control : c < ' '
    · have small : c.toNat < 32 := control
      simp [escaped, glyph, short, control, Glyph.scan, hexValue4?_control c.toNat small]
    · simp [escaped, glyph, short, control, Glyph.scan]

theorem spell_glyph (done : List Char) (c : Char) (rest : List Glyph) :
    Glyph.spell done (glyph c :: rest) = Glyph.spell (c :: done) rest := by
  unfold glyph
  split
  · rename_i control
    have small : c.toNat < 32 := control.1
    have below : c.toNat < 0xD800 := by omega
    rw [Glyph.spell.eq_def]
    simp [below]
  · rfl

theorem scan_flatMap_escaped (done : List Glyph) (cs rest : List Char) :
    Glyph.scan done (cs.flatMap escaped ++ '"' :: rest) =
      some (done.reverse ++ cs.map glyph, rest) := by
  induction cs generalizing done with
  | nil => simp [Glyph.scan]
  | cons c cs ih => rw [List.flatMap_cons, List.append_assoc, scan_escaped, ih]; simp

theorem spell_map_glyph (done cs : List Char) :
    Glyph.spell done (cs.map glyph) = some (String.ofList (done.reverse ++ cs)) := by
  induction cs generalizing done with
  | nil => simp [Glyph.spell]
  | cons c cs ih => rw [List.map_cons, spell_glyph, ih]; simp

/-! ## Tokens -/

def Token.isNumber : Token → Bool
  | number _ => true
  | _ => false

theorem exists_written (n : Number) : ∃ c rest, n.written = c :: rest ∧
    (n.negative = true ∧ c = '-' ∨ n.negative = false ∧ c.isDigit = true) := by
  rw [written_eq]
  cases n.negative with
  | true => exact ⟨'-', _, rfl, Or.inl ⟨rfl, rfl⟩⟩
  | false =>
      obtain ⟨c, rest, eq, digit⟩ := exists_digit n.whole
      exact ⟨c, rest ++ _, by rw [eq]; rfl, Or.inr ⟨rfl, digit⟩⟩

theorem next?_digit {c : Char} (digit : c.isDigit = true) (rest : List Char) :
    Token.next? (c :: rest) =
      (scanUnsigned false (c :: rest)).map fun (n, rest) => (.number n, rest) := by
  unfold Token.next?
  split
  case h_12 => rfl
  all_goals
    rename_i eq
    obtain ⟨rfl, -⟩ := List.cons.inj eq
    exact absurd digit (by decide)

/-- A token is read back up to where its text ends. -/
theorem next?_written (t : Token) {rest : List Char} (ends : t.isNumber = true → EndsNumber rest) :
    Token.next? (t.written ++ rest) = some (t, rest) := by
  cases t with
  | number n =>
      have scanned := scanUnsigned_digits (ends rfl) n
      rw [Token.written, written_eq]
      simp only [List.append_assoc]
      cases sign : n.negative with
      | true =>
          rw [sign] at scanned
          simp [Token.next?, scanned]
      | false =>
          obtain ⟨c, more, eq, digit⟩ := exists_digit n.whole
          rw [sign, eq, List.cons_append] at scanned
          rw [if_neg Bool.false_ne_true, List.nil_append, eq, List.cons_append, next?_digit digit,
            scanned]
          rfl
  | text content =>
      cases content with
      | none => rfl
      | some s =>
          have scanned := scan_flatMap_escaped [] s.toList rest
          have spelt := spell_map_glyph [] s.toList
          simp only [List.reverse_nil, List.nil_append, String.ofList_toList] at scanned spelt
          simp [Token.written, quoted, Token.next?, scanned, spelt]
  | boolean b => cases b <;> rfl
  | _ => rfl

/-- A token starts with a character that is not blank, and no token but a
number starts with one that could go on with a number. -/
theorem exists_head_written (t : Token) : ∃ c more, t.written = c :: more ∧ isBlank c = false ∧
    (t.isNumber = false → ∀ rest, EndsNumber (c :: rest)) := by
  cases t with
  | number n =>
      obtain ⟨c, more, eq, ⟨-, rfl⟩ | ⟨-, digit⟩⟩ := exists_written n
      · exact ⟨_, more, eq, by decide, nofun⟩
      · refine ⟨c, more, eq, ?_, nofun⟩
        have notBlank : ∀ blank, blank.isDigit = false → c ≠ blank := by
          rintro _ no rfl
          exact absurd digit (by simp [no])
        simp [isBlank, notBlank ' ', notBlank '\t', notBlank '\n', notBlank '\r']
  | text content => cases content <;> exact ⟨_, _, rfl, by decide, by simp [EndsNumber]⟩
  | boolean b => cases b <;> exact ⟨_, _, rfl, by decide, by simp [EndsNumber]⟩
  | _ => exact ⟨_, _, rfl, by decide, by simp [EndsNumber]⟩

/-- Tokens of which no two that are side by side are numbers. -/
def Apart : List Token → Prop :=
  List.IsChain fun a b => a.isNumber = true → b.isNumber = false

/-- Text that writes tokens, with any blanks in front of them, between them and
behind them. -/
inductive Spread : List Token → List Char → Prop where
  | nil : Spread [] []
  | blank {c : Char} {ts : List Token} {cs : List Char} (h : isBlank c = true)
      (rest : Spread ts cs) : Spread ts (c :: cs)
  | token (t : Token) {ts : List Token} {cs : List Char} (rest : Spread ts cs) :
      Spread (t :: ts) (t.written ++ cs)

theorem endsNumber_of_isBlank {c : Char} (blank : isBlank c = true) (rest : List Char) :
    EndsNumber (c :: rest) := by
  have cases' : c = ' ' ∨ c = '\t' ∨ c = '\n' ∨ c = '\r' := by simpa [isBlank] using blank
  rcases cases' with rfl | rfl | rfl | rfl <;> simp [EndsNumber]

namespace Spread

variable {ts ts' : List Token} {cs cs' : List Char}

theorem append (h : Spread ts cs) (h' : Spread ts' cs') : Spread (ts ++ ts') (cs ++ cs') := by
  induction h with
  | nil => exact h'
  | blank isBlank _ ih => exact .blank isBlank ih
  | token t _ ih =>
      rw [List.append_assoc]
      exact .token t ih

theorem blanks {bs : List Char} (blank : ∀ c ∈ bs, isBlank c = true) (h : Spread ts cs) :
    Spread ts (bs ++ cs) := by
  induction bs with
  | nil => exact h
  | cons c bs ih =>
      exact .blank (blank c List.mem_cons_self) (ih fun d hd => blank d (List.mem_cons_of_mem c hd))

theorem single (t : Token) : Spread [t] t.written := by
  have ended := Spread.token t .nil
  rwa [List.append_nil] at ended

theorem flatMap_written : (ts : List Token) → Spread ts (ts.flatMap Token.written)
  | [] => .nil
  | t :: ts => .token t (flatMap_written ts)

theorem length_le (h : Spread ts cs) : ts.length ≤ cs.length := by
  induction h with
  | nil => exact Nat.le_refl 0
  | blank _ _ ih => exact Nat.le_succ_of_le ih
  | token t _ ih =>
      obtain ⟨c, more, eq, -⟩ := exists_head_written t
      simp only [eq, List.length_cons, List.length_append]
      omega

theorem endsNumber (h : Spread ts cs) (marked : ∀ t ∈ ts.head?, t.isNumber = false) :
    EndsNumber cs := by
  cases h with
  | nil => exact nofun
  | blank isBlank _ => exact endsNumber_of_isBlank isBlank _
  | token t _ =>
      obtain ⟨c, more, eq, -, ends⟩ := exists_head_written t
      rw [eq, List.cons_append]
      exact ends (marked t rfl) _

theorem scanUpTo (h : Spread ts cs) (apart : Apart ts) {fuel : Nat} (enough : ts.length ≤ fuel)
    (done : List Token) : Token.scanUpTo fuel done cs = some (done.reverse ++ ts) := by
  induction h generalizing fuel done with
  | nil =>
      rw [List.append_nil]
      cases fuel <;> rfl
  | blank isBlank _ ih =>
      rw [Token.scanUpTo.eq_def, List.dropWhile_cons_of_pos isBlank, ← Token.scanUpTo.eq_def]
      exact ih apart enough done
  | token t rest ih =>
      obtain ⟨fuel, rfl⟩ := Nat.exists_eq_add_one_of_ne_zero (Nat.ne_zero_of_lt enough)
      obtain ⟨c, more, eq, notBlank, -⟩ := exists_head_written t
      have next := next?_written t fun number => rest.endsNumber fun next mem =>
        List.isChain_cons.1 apart |>.1 next mem number
      rw [eq, List.cons_append] at next
      have behind := ih apart.tail (Nat.le_of_succ_le_succ enough) (t :: done)
      rw [List.reverse_cons, List.append_assoc, List.singleton_append] at behind
      simp [eq, Token.scanUpTo, notBlank, next, behind]

theorem scan (h : Spread ts cs) (apart : Apart ts) : Token.scan cs = some ts :=
  h.scanUpTo apart h.length_le []

end Spread

/-! ## Values -/

theorem Apart.mark {ts : List Token} (apart : Apart ts) {t : Token} (mark : t.isNumber = false) :
    Apart (t :: ts) :=
  List.IsChain.cons apart fun _ _ number => absurd number (by simp [mark])

mutual

theorem apart_tokens_append {after : List Token} (apart : Apart after)
    (ends : ∀ t ∈ after.head?, t.isNumber = false) : (v : Json) → Apart (v.tokens ++ after)
  | .null => apart.mark rfl
  | .boolean _ => apart.mark rfl
  | .number _ => List.IsChain.cons apart fun t head _ => ends t head
  | .text _ => apart.mark rfl
  | .array [] => (apart.mark rfl).mark rfl
  | .array (v :: vs) => by
      obtain ⟨tail, marked⟩ := apart_elementTokens_append apart vs
      have head := apart_tokens_append tail marked v
      simpa [tokens] using head.mark rfl
  | .object [] => (apart.mark rfl).mark rfl
  | .object ((k, v) :: ms) => by
      obtain ⟨tail, marked⟩ := apart_memberTokens_append apart ms
      have head := apart_tokens_append tail marked v
      simpa [tokens] using ((head.mark rfl).mark rfl).mark rfl

theorem apart_elementTokens_append {after : List Token} (apart : Apart after) :
    (vs : List Json) → Apart (elementTokens vs ++ after) ∧
      ∀ t ∈ (elementTokens vs ++ after).head?, t.isNumber = false
  | [] => ⟨apart.mark rfl, by simp [elementTokens, Token.isNumber]⟩
  | v :: vs => by
      obtain ⟨tail, marked⟩ := apart_elementTokens_append apart vs
      have head := apart_tokens_append tail marked v
      refine ⟨?_, by simp [elementTokens, Token.isNumber]⟩
      simpa [elementTokens] using head.mark rfl

theorem apart_memberTokens_append {after : List Token} (apart : Apart after) :
    (ms : List (Option String × Json)) → Apart (memberTokens ms ++ after) ∧
      ∀ t ∈ (memberTokens ms ++ after).head?, t.isNumber = false
  | [] => ⟨apart.mark rfl, by simp [memberTokens, Token.isNumber]⟩
  | (k, v) :: ms => by
      obtain ⟨tail, marked⟩ := apart_memberTokens_append apart ms
      have head := apart_tokens_append tail marked v
      refine ⟨?_, by simp [memberTokens, Token.isNumber]⟩
      simpa [memberTokens] using (((head.mark rfl).mark rfl).mark rfl)

end

/-- A value is read from text that spreads its tokens. -/
theorem parse?_of_spread {v : Json} {text : String} (h : Spread v.tokens text.toList) :
    parse? text = some v := by
  have apart : Apart (v.tokens ++ []) := apart_tokens_append .nil nofun v
  rw [List.append_nil] at apart
  rw [parse?, h.scan apart]
  exact ofTokens?_tokens v

theorem spread_compact (v : Json) : Spread v.tokens v.compact.toList := by
  rw [compact, String.toList_ofList]
  exact .flatMap_written v.tokens

/-- Whatever its texts hold, a value is read back from what it is written as. -/
theorem parse?_compact (v : Json) : parse? v.compact = some v :=
  parse?_of_spread (spread_compact v)

/-! ## Control characters -/

theorem space_le_of_isDigit {c : Char} (digit : c.isDigit = true) : ' ' ≤ c := by
  have big : 48 ≤ c.val := (Char.isDigit_iff_toNat.1 digit).1
  exact UInt32.le_trans (by decide : (32 : UInt32) ≤ 48) big

theorem space_le_of_all {cs : List Char} (all : cs.all (' ' ≤ ·) = true) : ∀ c ∈ cs, ' ' ≤ c :=
  fun c mem => of_decide_eq_true (List.all_eq_true.1 all c mem)

theorem space_le_digits (n : Nat) : ∀ c ∈ digits n, ' ' ≤ c :=
  fun _ mem => space_le_of_isDigit (isDigit_of_mem_digits mem)

theorem space_le_escaped (c : Char) : ∀ d ∈ escaped c, ' ' ≤ d := by
  by_cases short : c ∈ ['"', '\\', '\x08', '\x0c', '\n', '\r', '\t']
  · simp only [List.mem_cons, List.not_mem_nil, or_false] at short
    rcases short with rfl | rfl | rfl | rfl | rfl | rfl | rfl <;> exact space_le_of_all rfl
  · simp only [List.mem_cons, List.not_mem_nil, or_false, not_or] at short
    by_cases control : c < ' '
    · have hex : ∀ n < 16, ' ' ≤ n.digitChar := by decide
      have small : c.toNat < 32 := control
      have high := hex (c.toNat / 16) (by omega)
      have low := hex (c.toNat % 16) (by omega)
      simp [escaped, short, control, high, low]
    · simp [escaped, short, control, Char.not_lt.1 control]

theorem space_le_quoted : (content : Option String) → ∀ c ∈ quoted content, ' ' ≤ c
  | none => space_le_of_all rfl
  | some s => by
      have inside : ∀ c ∈ s.toList.flatMap escaped, ' ' ≤ c := by
        intro c mem
        obtain ⟨d, -, mem⟩ := List.mem_flatMap.1 mem
        exact space_le_escaped d c mem
      intro c mem
      rcases List.mem_append.1 mem with mem | last
      · rcases List.mem_cons.1 mem with rfl | mem
        · decide
        · exact inside c mem
      · obtain rfl := List.mem_singleton.1 last
        decide

theorem space_le_exponentText : (exponent : Option (Bool × Nat)) →
    ∀ c ∈ exponentText exponent, ' ' ≤ c
  | none => nofun
  | some (below, size) => by
      have digits' := space_le_digits size
      cases below <;> simpa [exponentText] using digits'

theorem space_le_fractionText (fraction : List (Fin 10)) :
    ∀ c ∈ fractionText fraction, ' ' ≤ c := by
  cases fraction with
  | nil => exact nofun
  | cons d ds =>
      intro c mem
      rcases List.mem_cons.1 mem with rfl | mem
      · decide
      · obtain ⟨d, -, rfl⟩ := List.mem_map.1 mem
        exact space_le_of_isDigit (isDigit_digitChar d)

theorem space_le_number (n : Number) : ∀ c ∈ n.written, ' ' ≤ c := by
  rw [written_eq]
  intro c mem
  simp only [List.mem_append] at mem
  rcases mem with sign | whole | fraction | exponent
  · split at sign
    · obtain rfl := List.mem_singleton.1 sign
      decide
    · cases sign
  · exact space_le_digits _ c whole
  · exact space_le_fractionText _ c fraction
  · exact space_le_exponentText _ c exponent

theorem space_le_written (t : Token) : ∀ c ∈ t.written, ' ' ≤ c := by
  cases t with
  | number n => exact space_le_number n
  | text content => exact space_le_quoted content
  | boolean b => cases b <;> exact space_le_of_all rfl
  | _ => exact space_le_of_all rfl

/-- A value is written without control characters. -/
theorem space_le_compact (v : Json) : ∀ c ∈ v.compact.toList, ' ' ≤ c := by
  intro c mem
  rw [compact, String.toList_ofList] at mem
  obtain ⟨t, -, mem⟩ := List.mem_flatMap.1 mem
  exact space_le_written t c mem

theorem newline_notMem_compact (v : Json) : '\n' ∉ v.compact.toList :=
  fun mem => absurd (space_le_compact v _ mem) (by decide)

end DiagnosticFeed.Json
