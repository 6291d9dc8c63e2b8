import PottsOracle.Text.Printable

/-!
# Quoted texts

A text inside a list or after "got" is shown between quotes: single ones, unless it holds a single
quote and no double one.  The quote, the backslash and every unprintable code point are escaped.
-/

namespace PottsOracle.Text

/-- The quote that goes around a text. -/
def quoteFor (t : Text) : CodePoint := if t.contains 39 && !t.contains 34 then 34 else 39

/-- One code point as it stands between quotes. -/
def escapeQuoted (quote c : CodePoint) : Text :=
  if c = quote ∨ c = 92 then [92, c]
  else if c = 9 then ofString "\\t"
  else if c = 10 then ofString "\\n"
  else if c = 13 then ofString "\\r"
  else if isPrintable c then [c]
  else if c < 0x100 then ofString "\\x" ++ hex 2 c
  else if c < 0x10000 then ofString "\\u" ++ hex 4 c
  else ofString "\\U" ++ hex 8 c

/-- A text between quotes. -/
def quoted (t : Text) : Text :=
  let quote := quoteFor t
  quote :: t.flatMap (escapeQuoted quote) ++ [quote]

end PottsOracle.Text
