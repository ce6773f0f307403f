import ApiDoc.Text.Extending
import ApiDoc.Text.Ignorable
import ApiDoc.Text.Unprintable

/-!
# Quoted text

How a character and a piece of text are written in an error message, so that every character of
the message can be read.
-/

namespace ApiDoc.Text

/-- A character by its code point: `\u`, then the lower-case hexadecimal number in braces. -/
def codePoint (c : Char) : List Char :=
  ['\\', 'u', '{'] ++ Nat.toDigits 16 c.toNat ++ ['}']

/-- A character as an error message shows it: printable ASCII as it is, quotes and the backslash
behind a backslash, all else by its code point. -/
def shownChar (c : Char) : List Char :=
  if c = '\t' then ['\\', 't']
  else if c = '\r' then ['\\', 'r']
  else if c = '\n' then ['\\', 'n']
  else if c = '\'' || c = '"' || c = '\\' then ['\\', c]
  else if 0x20 ≤ c.toNat && c.toNat ≤ 0x7E then [c]
  else codePoint c

/-- A character inside a quoted text: double quotes and the backslash stand behind a backslash, and
only what cannot be seen is written by its code point. -/
def quotedChar (c : Char) : List Char :=
  if c = '\x00' then ['\\', '0']
  else if c = '\t' then ['\\', 't']
  else if c = '\r' then ['\\', 'r']
  else if c = '\n' then ['\\', 'n']
  else if c = '"' || c = '\\' then ['\\', c]
  else if isExtending c || isIgnorable c || isUnprintable c then codePoint c
  else [c]

/-- A text between double quotes. -/
def quoted (s : String) : String :=
  String.ofList (['"'] ++ s.toList.flatMap quotedChar ++ ['"'])

end ApiDoc.Text
