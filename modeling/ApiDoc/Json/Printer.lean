import ApiDoc.Json.Basic

/-!
# Printed JSON

A JSON value as indented text: two spaces for each level, one item or field in a line, and `[]` or
empty braces where there is none.
-/

namespace ApiDoc.Json

/-! ### Strings -/

/-- A number below 256 as two lower-case hexadecimal digits. -/
def hexByte (n : Nat) : List Char :=
  [Nat.digitChar (n / 16), Nat.digitChar (n % 16)]

/-- A character inside a JSON string: quotes, backslashes and controls are escaped, all else stands
for itself. -/
def escapeChar (c : Char) : List Char :=
  if c = '"' then ['\\', '"']
  else if c = '\\' then ['\\', '\\']
  else if c = '\x08' then ['\\', 'b']
  else if c = '\x0c' then ['\\', 'f']
  else if c = '\n' then ['\\', 'n']
  else if c = '\r' then ['\\', 'r']
  else if c = '\t' then ['\\', 't']
  else if c.toNat < 0x20 then ['\\', 'u', '0', '0'] ++ hexByte c.toNat
  else [c]

/-- A JSON string. -/
def quote (s : String) : List Char :=
  ['"'] ++ s.toList.flatMap escapeChar ++ ['"']

/-! ### Values -/

/-- A line end and the indentation of the next line. -/
def newLine (level : Nat) : List Char := '\n' :: List.replicate (2 * level) ' '

mutual

/-- A value whose lines, but for the first, are indented by `level`. -/
def print (level : Nat) : Json → List Char
  | .null => ['n', 'u', 'l', 'l']
  | .bool true => ['t', 'r', 'u', 'e']
  | .bool false => ['f', 'a', 'l', 's', 'e']
  | .nat n => n.repr.toList
  | .str s => quote s
  | .arr [] => ['[', ']']
  | .arr (item :: items) =>
    ['['] ++ newLine (level + 1) ++ print (level + 1) item ++ printItems (level + 1) items
      ++ newLine level ++ [']']
  | .obj [] => ['{', '}']
  | .obj ((name, value) :: fields) =>
    ['{'] ++ newLine (level + 1) ++ quote name ++ [':', ' '] ++ print (level + 1) value
      ++ printFields (level + 1) fields ++ newLine level ++ ['}']

/-- The items after the first one. -/
def printItems (level : Nat) : List Json → List Char
  | [] => []
  | item :: items => [','] ++ newLine level ++ print level item ++ printItems level items

/-- The fields after the first one. -/
def printFields (level : Nat) : List (String × Json) → List Char
  | [] => []
  | (name, value) :: fields =>
    [','] ++ newLine level ++ quote name ++ [':', ' '] ++ print level value
      ++ printFields level fields

end

/-- A value as a text of its own, with a line end behind it. -/
def pretty (j : Json) : String :=
  String.ofList (print 0 j ++ ['\n'])

end ApiDoc.Json
