import AdaptiveVM.Text.Column
import AdaptiveVM.Text.Glyphless

/-!
Quoted text: a text between double quotes, with the quote, the backslash and a few control
characters written by a backslash and a letter, and every other character without a glyph
written by its number.
-/

namespace AdaptiveVM.Text

/-- How one character is written between double quotes. -/
def escape (c : Char) : String :=
  if c = '\x00' then "\\0"
  else if c = '\t' then "\\t"
  else if c = '\r' then "\\r"
  else if c = '\n' then "\\n"
  else if c = '"' then "\\\""
  else if c = '\\' then "\\\\"
  else if isGlyphless c then "\\u\x7b" ++ hex c.toNat ++ "\x7d"
  else String.singleton c

/-- The text between double quotes. -/
def quoted (s : String) : String := "\"" ++ String.join (s.toList.map escape) ++ "\""

end AdaptiveVM.Text
