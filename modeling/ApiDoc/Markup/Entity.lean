import ApiDoc.Text.Segments
import ApiDoc.Text.Unescaped

/-!
# Character entities

In markup text, `&name;` stands for a character. What is no known entity stands for itself, its
ampersand included, so decoding never fails.
-/

namespace ApiDoc.Markup.Entity

/-- The value of a decimal digit. -/
def digit? (c : Char) : Option Nat := if c.isDigit then some (c.toNat - '0'.toNat) else none

/-- The number that digits of a base spell, perhaps behind a plus sign. -/
def number? (base : Nat) (value? : Char → Option Nat) (cs : List Char) : Option Nat :=
  let digits := (Text.afterStart? ['+'] cs).getD cs
  if digits.isEmpty then none
  else digits.foldlM (fun n c => (value? c).map (base * n + ·)) 0

/-- The character with a code point, if there is one. -/
def charOf? (n : Nat) : Option Char :=
  if n.isValidChar then some (Char.ofNat n) else none

/-- The character that a number stands for: hexadecimal behind an `x`, decimal otherwise. -/
def numeric? (cs : List Char) : Option Char :=
  match cs with
  | 'x' :: hex | 'X' :: hex => (number? 16 Text.hexValue? hex).bind charOf?
  | _ => (number? 10 digit? cs).bind charOf?

/-- The character that the text between `&` and `;` stands for. -/
def decode? (entity : List Char) : Option Char :=
  match String.ofList entity with
  | "amp" => some '&'
  | "lt" => some '<'
  | "gt" => some '>'
  | "quot" => some '"'
  | "apos" => some '\''
  | "nbsp" => some ' '
  | "copy" => some (Char.ofNat 0xA9)
  | _ =>
    match entity with
    | '#' :: code => numeric? code
    | _ => none

/-- Replace the entities of a text by their characters. -/
def decodeAll : List Char → List Char
  | [] => []
  | c :: cs =>
    if c ≠ '&' then c :: decodeAll cs
    else
      match decode? (cs.takeWhile (· ≠ ';')), cs.dropWhile (· ≠ ';') with
      | some char, _ :: _ => char :: decodeAll (cs.drop ((cs.takeWhile (· ≠ ';')).length + 1))
      | _, _ => c :: decodeAll cs
termination_by cs => cs.length

end ApiDoc.Markup.Entity
