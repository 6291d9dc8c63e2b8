import PottsOracle.Decimal.Style
import PottsOracle.Json.Value
import PottsOracle.Text.Digit

/-!
# Tokens of a document

A document is a row of tokens: six marks and the values that have no parts.  Spaces, tabs and line
ends may stand between tokens and mean nothing.

Reading a token hands back what stands behind it, which is always shorter; so the tokens of a
document are read one after the other until nothing is left.  Where no token can be read the row
ends with a token that says so: an error that comes earlier in the row goes first.
-/

namespace PottsOracle.Json

/-- A word of a document. -/
inductive Token where
  | openList
  | closeList
  | openRecord
  | closeRecord
  | comma
  | colon
  /-- A text: a value, or the key of a field. -/
  | text (t : Text)
  /-- A value without parts that is no text. -/
  | leaf (v : Value)
  /-- An integer with too many digits. -/
  | longInteger
  /-- What stands where no token can be read. -/
  | broken

/-- Why a text is no document. -/
inductive SyntaxError where
  /-- A token that may not stand where it does, or no token at all. -/
  | misplacedToken
  /-- An integer with too many digits. -/
  | tooManyDigits
  /-- Too many lists and records are open. -/
  | tooDeep
  /-- The document ends too early. -/
  | endOfText
  deriving DecidableEq, Repr

/-- The white space of documents. -/
def isSpace (c : CodePoint) : Bool := c == 32 || c == 9 || c == 10 || c == 13

/-- A digit in base ten. -/
def isDigit (c : CodePoint) : Bool := 48 ≤ c && c ≤ 57

/-- The value of a digit in base sixteen. -/
def hexValue? (c : CodePoint) : Option Nat :=
  if 48 ≤ c ∧ c ≤ 57 then some (c - 48)
  else if 97 ≤ c ∧ c ≤ 102 then some (c - 87)
  else if 65 ≤ c ∧ c ≤ 70 then some (c - 55)
  else none

/-- The number that four digits in base sixteen stand for. -/
def hexNumber? (a b c d : CodePoint) : Option Nat := do
  let a ← hexValue? a
  let b ← hexValue? b
  let c ← hexValue? c
  let d ← hexValue? d
  pure (((a * 16 + b) * 16 + c) * 16 + d)

/-! ## Texts -/

/-- The character that a backslash and a letter stand for. -/
def escapeValue? (c : CodePoint) : Option CodePoint :=
  if c = 34 ∨ c = 92 ∨ c = 47 then some c
  else if c = 98 then some 8
  else if c = 102 then some 12
  else if c = 110 then some 10
  else if c = 114 then some 13
  else if c = 116 then some 9
  else none

/-- The second surrogate of a pair, if it is written next. -/
def lowSurrogateNext? : Text → Option CodePoint
  | 92 :: 117 :: a :: b :: c :: d :: _ => (hexNumber? a b c d).filter Text.isLowSurrogate
  | _ => none

/-- The first code point of a text behind its opening quote, and what stands behind it; nothing at
the end of the text or where it is malformed.  Two escaped surrogates that form a pair are one code
point. -/
def readCodePoint? : Text → Option (CodePoint × Text)
  | 92 :: 117 :: a :: b :: c :: d :: rest =>
    match hexNumber? a b c d with
    | none => none
    | some u =>
      match if Text.isHighSurrogate u then lowSurrogateNext? rest else none with
      | some low => some (Text.joinSurrogates u low, rest.drop 6)
      | none => some (u, rest)
  | 92 :: c :: rest => (escapeValue? c).map (·, rest)
  | c :: rest => if c < 32 ∨ c = 34 ∨ c = 92 then none else some (c, rest)
  | [] => none

theorem readCodePoint?_length {s rest : Text} {c : CodePoint}
    (h : readCodePoint? s = some (c, rest)) : rest.length < s.length := by
  revert h
  fun_cases readCodePoint? s <;> intro h <;> simp_all <;> grind

/-- The rest of a text behind its opening quote, and what stands behind its closing quote. -/
def readText? (s : Text) : Option (Text × Text) :=
  match s with
  | 34 :: rest => some ([], rest)
  | s =>
    match _h : readCodePoint? s with
    | none => none
    | some (c, rest) => (readText? rest).map fun (t, behind) => (c :: t, behind)
termination_by s.length
decreasing_by exact readCodePoint?_length _h

theorem readText?_length {s t rest : Text} (h : readText? s = some (t, rest)) :
    rest.length < s.length := by
  fun_induction readText? s generalizing t with
  | case1 => simp_all
  | case2 => simp_all
  | case3 s _ c next hc ih =>
    obtain ⟨⟨u, behind⟩, hu, heq⟩ := Option.map_eq_some_iff.1 h
    simp only [Prod.mk.injEq] at heq
    have := ih (heq.2 ▸ hu)
    have := readCodePoint?_length hc
    omega

/-! ## Numbers -/

/-- The digits at the start of a text, as a number, and what stands behind them. -/
def readDigits (s : Text) : List Nat × Text :=
  ((s.takeWhile isDigit).map (· - 48), s.dropWhile isDigit)

/-- The number that digits in base ten stand for. -/
def natOfDigits (digits : List Nat) : Nat := digits.foldl (fun n d => 10 * n + d) 0

/-- The digits behind a point, if a point with digits behind it is next. -/
def readFraction : Text → Option (List Nat × Text)
  | 46 :: rest =>
    match readDigits rest with
    | ([], _) => none
    | (digits, rest) => some (digits, rest)
  | _ => none

/-- Whether a minus sign is next, and what stands behind a sign. -/
def readSign : Text → Bool × Text
  | 45 :: rest => (true, rest)
  | 43 :: rest => (false, rest)
  | rest => (false, rest)

/-- The power of ten, if one is written next. -/
def readExponent : Text → Option (Int × Text)
  | c :: rest =>
    if c = 101 ∨ c = 69 then
      match readDigits (readSign rest).2 with
      | ([], _) => none
      | (digits, behind) =>
        some (Binary64.signed (readSign rest).1 (natOfDigits digits), behind)
    else none
  | [] => none

/-- The integer part of a number: a zero, or digits that do not start with one. -/
def readInteger? : Text → Option (List Nat × Text)
  | 48 :: rest => some ([0], rest)
  | s =>
    match readDigits s with
    | ([], _) => none
    | (digits, rest) => some (digits, rest)

/-- The token of an integer without its sign. -/
def integerToken (negative : Bool) (digits : List Nat) : Token :=
  if digits.length ≤ Text.maxIntegerDigits
  then .leaf (.int (Binary64.signed negative (natOfDigits digits)))
  else .longInteger

/-- A number without its sign.  It is a float if it has a fraction or a power of ten. -/
def readNumber? (negative : Bool) (s : Text) : Option (Token × Text) := do
  let (whole, rest) ← readInteger? s
  match readFraction rest, readExponent rest with
  | some (places, rest), _ =>
    let significand := natOfDigits (whole ++ places)
    let (exponent, rest) := (readExponent rest).getD (0, rest)
    let x := Decimal.toFloat significand (exponent - places.length)
    pure (.leaf (.float (Decimal.withSign negative x)), rest)
  | none, some (exponent, rest) =>
    let x := Decimal.toFloat (natOfDigits whole) exponent
    pure (.leaf (.float (Decimal.withSign negative x)), rest)
  | none, none => pure (integerToken negative whole, rest)

/-! ## Tokens -/

/-- The words that stand for a value. -/
def words : List (Text × Value) := [
  (Text.ofString "null", .null),
  (Text.ofString "true", .bool true),
  (Text.ofString "false", .bool false),
  (Text.ofString "NaN", .float Binary64.notANumber),
  (Text.ofString "Infinity", .float Binary64.infinity),
  (Text.ofString "-Infinity", .float (-Binary64.infinity))]

/-- The value of the word at the start of a text, and what stands behind it. -/
def readWord? (s : Text) : Option (Value × Text) :=
  (words.find? fun (word, _) => word.isPrefixOf s).map fun (word, v) => (v, s.drop word.length)

/-- The mark that a character is. -/
def mark? (c : CodePoint) : Option Token :=
  if c = 91 then some .openList
  else if c = 93 then some .closeList
  else if c = 123 then some .openRecord
  else if c = 125 then some .closeRecord
  else if c = 44 then some .comma
  else if c = 58 then some .colon
  else none

/-- The token at the start of a text that does not start with a space, and what stands behind. -/
def readToken? : Text → Option (Token × Text)
  | [] => none
  | c :: rest =>
    match mark? c with
    | some token => some (token, rest)
    | none =>
      if c = 34 then (readText? rest).map fun (t, rest) => (.text t, rest)
      else
        match readWord? (c :: rest) with
        | some (v, rest) => some (.leaf v, rest)
        | none =>
          if c = 45 then readNumber? true rest else readNumber? false (c :: rest)

/-! ### What is read gets shorter -/

theorem readDigits_length (s : Text) : (readDigits s).2.length ≤ s.length :=
  (List.dropWhile_sublist _).length_le

theorem readDigits_length_lt {s : Text} (h : (readDigits s).1 ≠ []) :
    (readDigits s).2.length < s.length := by
  cases s with
  | nil => simp [readDigits] at h
  | cons c s =>
    by_cases hc : isDigit c = true
    · have := (List.dropWhile_sublist (l := s) isDigit).length_le
      simp [readDigits, hc]
      omega
    · simp [readDigits, hc] at h

theorem readFraction_length {s rest : Text} {digits : List Nat}
    (h : readFraction s = some (digits, rest)) : rest.length ≤ s.length := by
  revert h
  fun_cases readFraction s <;> intro h
  case case2 behind d ds after hd =>
    have := readDigits_length behind
    simp_all
    omega
  all_goals simp_all

theorem readSign_length (s : Text) : (readSign s).2.length ≤ s.length := by
  fun_cases readSign s <;> simp_all

theorem readExponent_length {s rest : Text} {e : Int}
    (h : readExponent s = some (e, rest)) : rest.length ≤ s.length := by
  revert h
  fun_cases readExponent s <;> intro h
  case case2 c behind _ digits after _ hd =>
    have h₁ := readDigits_length (readSign behind).2
    have h₂ := readSign_length behind
    simp_all
    omega
  all_goals simp_all

theorem readInteger?_length {s rest : Text} {digits : List Nat}
    (h : readInteger? s = some (digits, rest)) : rest.length < s.length := by
  revert h
  fun_cases readInteger? s <;> intro h
  case case3 ds after hne hd _ =>
    have := readDigits_length_lt (s := s) (by simp_all)
    simp_all
  all_goals simp_all

theorem readNumber?_length {negative : Bool} {s rest : Text} {token : Token}
    (h : readNumber? negative s = some (token, rest)) : rest.length < s.length := by
  unfold readNumber? at h
  cases hw : readInteger? s with
  | none => simp [hw] at h
  | some wr =>
    obtain ⟨whole, behind⟩ := wr
    have h₁ := readInteger?_length hw
    simp only [hw, Option.bind_eq_bind, Option.bind_some] at h
    split at h
    · rename_i places after hf
      have h₂ := readFraction_length hf
      cases he : readExponent after with
      | none => simp_all; omega
      | some er =>
        have h₃ : er.2.length ≤ after.length := readExponent_length (e := er.1) he
        simp_all
        omega
    · rename_i e after he
      have h₂ := readExponent_length he
      simp_all
      omega
    · simp_all

theorem readWord?_length {s rest : Text} {v : Value}
    (h : readWord? s = some (v, rest)) : rest.length < s.length := by
  obtain ⟨⟨word, w⟩, hfind, heq⟩ := Option.map_eq_some_iff.1 h
  have hp : word.isPrefixOf s = true := by simpa using List.find?_some hfind
  have hmem := List.mem_of_find?_eq_some hfind
  have hle := (List.isPrefixOf_iff_prefix.1 hp).length_le
  have hpos : 0 < word.length := by
    simp only [words, List.mem_cons, Prod.mk.injEq, List.not_mem_nil, or_false] at hmem
    rcases hmem with h | h | h | h | h | h <;> rw [h.1] <;> decide
  simp only [Prod.mk.injEq] at heq
  rw [← heq.2, List.length_drop]
  omega

theorem readToken?_length {s rest : Text} {token : Token}
    (h : readToken? s = some (token, rest)) : rest.length < s.length := by
  revert h
  fun_cases readToken? s <;> intro h
  case case1 => simp_all
  case case2 => simp_all
  case case3 =>
    obtain ⟨⟨t, behind⟩, ht, heq⟩ := Option.map_eq_some_iff.1 h
    have := readText?_length ht
    simp_all
    omega
  case case4 hw =>
    have := readWord?_length hw
    simp_all
  case case5 =>
    have := readNumber?_length h
    simp_all
    omega
  case case6 =>
    have := readNumber?_length h
    simp_all

/-- The tokens of a text, up to where no token can be read. -/
def tokens (s : Text) : List Token :=
  match s with
  | [] => []
  | c :: rest =>
    if isSpace c then tokens rest
    else
      match _h : readToken? (c :: rest) with
      | none => [.broken]
      | some (token, behind) => token :: tokens behind
termination_by s.length
decreasing_by
  · simp
  · exact readToken?_length _h

end PottsOracle.Json
