import ApiDoc.Text.Position

/-!
# Unicode escapes

A source file may spell any character as an escape: a backslash, one or more `u`, and four
hexadecimal digits that give a UTF-16 code unit; a character above U+FFFF takes two escapes in a
row. An escape starts only at a backslash that an even number of backslashes precedes. Anything
else stands for itself.

`Unescaped.ofSource` decodes a source in one pass. What stands between two escapes is not copied
until the second one is found, so the pass keeps the offset up to which the source has been copied.
Just behind each escape it notes where the text and the source go on (`Shift`), and from these notes
`Unescaped.sourceOffset` leads back from a byte of the text to a byte of the source.
-/

namespace ApiDoc.Text

/-! ### Reading one escape -/

/-- The value of a hexadecimal digit. -/
def hexValue? (c : Char) : Option Nat :=
  if '0' ≤ c ∧ c ≤ '9' then some (c.toNat - '0'.toNat)
  else if 'a' ≤ c ∧ c ≤ 'f' then some (c.toNat - 'a'.toNat + 10)
  else if 'A' ≤ c ∧ c ≤ 'F' then some (c.toNat - 'A'.toNat + 10)
  else none

/-- The number that hexadecimal digits spell, most significant first. -/
def hexNumber? (digits : List Char) : Option Nat :=
  digits.foldlM (fun n c => (hexValue? c).map (16 * n + ·)) 0

/-- The code unit that an escape at the head of `cs` names, and the length of the escape. -/
def codeUnit? (cs : List Char) : Option (Nat × Nat) :=
  match cs with
  | '\\' :: 'u' :: rest =>
    let us := rest.takeWhile (· = 'u')
    match rest.dropWhile (· = 'u') with
    | a :: b :: c :: d :: _ => (hexNumber? [a, b, c, d]).map fun unit => (unit, 2 + us.length + 4)
    | _ => none
  | _ => none

/-- Is `unit` the first half of a surrogate pair? -/
def isHighSurrogate (unit : Nat) : Bool := 0xD800 ≤ unit && unit ≤ 0xDBFF

/-- Is `unit` the second half of a surrogate pair? -/
def isLowSurrogate (unit : Nat) : Bool := 0xDC00 ≤ unit && unit ≤ 0xDFFF

/-- The character that a surrogate pair stands for. -/
def pairedChar (high low : Nat) : Char :=
  Char.ofNat (0x10000 + (high - 0xD800) * 0x400 + (low - 0xDC00))

/-- The character that the escapes at the head of `cs` spell, and the length of its spelling. A
surrogate without its partner spells nothing. -/
def escape? (cs : List Char) : Option (Char × Nat) :=
  match codeUnit? cs with
  | none => none
  | some (unit, length) =>
    if isHighSurrogate unit then
      match codeUnit? (cs.drop length) with
      | some (low, length') =>
        if isLowSurrogate low then some (pairedChar unit low, length + length') else none
      | none => none
    else if isLowSurrogate unit then none
    else some (Char.ofNat unit, length)

/-! ### Decoding a source -/

/-- Where a text goes on behind an escape, and where its source does. -/
structure Shift where
  decoded : Nat
  original : Nat
deriving DecidableEq, Repr

/-- The source byte that byte `offset` of the text comes from, if no escape ends between the shift
and this byte. -/
def Shift.apply (s : Shift) (offset : Nat) : Nat := s.original + (offset - s.decoded)

/-- A source text with its escapes decoded. -/
structure Unescaped where
  text : List Char
  /-- One shift for each escape, in order. -/
  shifts : Array Shift := #[]
deriving DecidableEq, Repr

/-- Does a `u` stand behind a backslash? -/
def mentionsEscape : List Char → Bool
  | [] => false
  | c :: cs => (c = '\\' && cs.head? = some 'u') || mentionsEscape cs

namespace Unescaped

/-- Copy the source from byte `i` up to byte `j`, if characters end there. -/
def copy? (u : Unescaped) (source : List Char) (i j : Nat) : Option Unescaped :=
  (slice? source i j).map fun piece => { u with text := u.text ++ piece }

/-- Put the character of an escape that ends at byte `i` of the source. -/
def put (u : Unescaped) (c : Char) (i : Nat) : Unescaped :=
  ⟨u.text ++ [c], u.shifts.push ⟨byteLength (u.text ++ [c]), i⟩⟩

/-- Decode what is left of the source at byte `i`, with `u` decoded of what stands before byte
`copied`, and `backslashes` just before byte `i`. -/
def decodeFrom? (source : List Char) (u : Unescaped) (copied backslashes i : Nat) :
    List Char → Option Unescaped
  | [] => u.copy? source copied i
  | c :: cs =>
    if c ≠ '\\' then decodeFrom? source u copied 0 (i + c.utf8Size) cs
    else if backslashes % 2 = 1 then decodeFrom? source u copied (backslashes + 1) (i + 1) cs
    else
      match escape? (c :: cs) with
      | none => decodeFrom? source u copied (backslashes + 1) (i + 1) cs
      | some (char, length) =>
        -- the characters of an escape have one byte each
        (u.copy? source copied i).bind fun u =>
          decodeFrom? source (u.put char (i + length)) (i + length) 0 (i + length)
            (cs.drop (length - 1))
termination_by cs => cs.length

/-- Decode a source, if every piece that is copied can be cut out of it. -/
def decode? (source : List Char) : Option Unescaped :=
  if mentionsEscape source then decodeFrom? source ⟨[], #[]⟩ 0 0 0 source else some ⟨source, #[]⟩

/-- A source with its escapes decoded. -/
def ofSource (source : List Char) : Unescaped := (decode? source).getD ⟨source, #[]⟩

/-- Was any escape decoded? -/
def hasEscapes (u : Unescaped) : Bool := !u.shifts.isEmpty

/-- The last shift at or before byte `offset` of the text. -/
def shiftBefore? (u : Unescaped) (offset : Nat) : Option Shift :=
  match BinarySearch.partitionPoint u.shifts (·.decoded ≤ offset) with
  | 0 => none
  | i + 1 => u.shifts[i]?

/-- The source byte that byte `offset` of the text comes from. The first byte of a character that is
spelled by an escape comes from the backslash. -/
def sourceOffset (u : Unescaped) (offset : Nat) : Nat :=
  match u.shiftBefore? offset with
  | some shift => shift.apply offset
  | none => offset

end Unescaped

end ApiDoc.Text
