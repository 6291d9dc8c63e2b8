/-!
# Texts

A text is a list of code points.  It may hold surrogates that stand alone, which a `String` may
not: settings can contain them, and nothing that is read is lost when it is printed again.
-/

namespace PottsOracle

/-- A number that stands for a character or for half of a surrogate pair. -/
abbrev CodePoint := Nat

/-- A sequence of code points. -/
abbrev Text := List CodePoint

namespace Text

/-- The code points of a string. -/
def ofString (s : String) : Text := s.toList.map Char.toNat

/-- The texts of a list with a separator between each two. -/
def joined (separator : Text) : List Text → Text
  | [] => []
  | [t] => t
  | t :: ts => t ++ separator ++ joined separator ts

/-- The digits of a number in base ten, the most significant one first. -/
def digits (n : Nat) : List Nat :=
  if n < 10 then [n] else digits (n / 10) ++ [n % 10]

/-- A digit from 0 to 15 as a code point, with small letters from ten on. -/
def ofDigit (d : Nat) : CodePoint := if d < 10 then 48 + d else 87 + d

/-- A natural number in base ten. -/
def ofNat (n : Nat) : Text := (digits n).map ofDigit

/-- An integer in base ten, with a minus sign if it is negative. -/
def ofInt (n : Int) : Text := if n < 0 then 45 :: ofNat n.natAbs else ofNat n.natAbs

/-- The last `width` digits of a number in base sixteen. -/
def hex (width n : Nat) : Text :=
  match width with
  | 0 => []
  | w + 1 => hex w (n / 16) ++ [ofDigit (n % 16)]

/-- The first half of a surrogate pair. -/
def isHighSurrogate (c : CodePoint) : Bool := 0xD800 ≤ c && c < 0xDC00

/-- The second half of a surrogate pair. -/
def isLowSurrogate (c : CodePoint) : Bool := 0xDC00 ≤ c && c < 0xE000

/-- The code point that two surrogates stand for together. -/
def joinSurrogates (high low : CodePoint) : CodePoint :=
  0x10000 + (high - 0xD800) * 0x400 + (low - 0xDC00)

/-- The code units of sixteen bits that stand for a code point. -/
def units (c : CodePoint) : List Nat :=
  if c < 0x10000 then [c]
  else [0xD800 + (c - 0x10000) / 0x400, 0xDC00 + (c - 0x10000) % 0x400]

/-- Blanks: the white space of the standard. -/
def isBlank (c : CodePoint) : Bool :=
  (9 ≤ c && c ≤ 13) || c == 32 || c == 0x85 || c == 0xA0 || c == 0x1680
    || (0x2000 ≤ c && c ≤ 0x200A) || c == 0x2028 || c == 0x2029 || c == 0x202F || c == 0x205F
    || c == 0x3000

/-- A text without the blanks at its two ends. -/
def trimmed (t : Text) : Text :=
  ((t.dropWhile isBlank).reverse.dropWhile isBlank).reverse

/-- The order of two texts: by the first code point that differs, a shorter text first. -/
def le : Text → Text → Bool
  | [], _ => true
  | _ :: _, [] => false
  | a :: s, b :: t => a < b || (a == b && le s t)

example : ofInt (-120) = ofString "-120" := by decide +kernel

example : joinSurrogates 0xD83D 0xDE00 = 0x1F600 ∧ units 0x1F600 = [0xD83D, 0xDE00] := by decide

end Text

end PottsOracle
