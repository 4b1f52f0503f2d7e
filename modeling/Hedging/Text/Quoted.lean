import Hedging.Text.Printable

/-!
# Quoted texts

A text in a message stands between double quotes.  A backslash and a double quote
are written with a backslash before them; the null character, the tab, the line
feed and the carriage return have escapes of one letter; every other character
that is not shown as it is is written as its code point in hexadecimal.
-/

namespace Hedging
namespace Text

/-- A number in lowercase hexadecimal digits, without zeros in front. -/
def hex (n : Nat) : List Char := Nat.toDigits 16 n

/-- How a character is written between double quotes. -/
def quotedChar (c : Char) : List Char :=
  if c = '"' then ['\\', '"']
  else if c = '\\' then ['\\', '\\']
  else if c = '\n' then ['\\', 'n']
  else if c = '\r' then ['\\', 'r']
  else if c = '\t' then ['\\', 't']
  else if c = '\x00' then ['\\', '0']
  else if isShown c then [c]
  else ['\\', 'u', '\x7b'] ++ hex c.toNat ++ ['\x7d']

/-- The text between double quotes. -/
def quoted (s : String) : String :=
  String.ofList (['"'] ++ s.toList.flatMap quotedChar ++ ['"'])

/-- A combining mark and a zero-width space are written as their code points, a letter is not. -/
example : quoted "é\"\\\n\x07\u0301\u200b" = "\"é\\\"\\\\\\n\\u\x7b7\x7d\\u\x7b301\x7d\\u\x7b200b\x7d\"" := by
  decide +kernel

end Text
end Hedging
