
/-!
# Decoding UTF-8

Every sequence of bytes is read as a text. Where the bytes are no UTF-8, each longest start of a
character that cannot be completed, or else the single byte, becomes the replacement character.
-/

namespace ApiDoc.Text.Utf8

/-- The character that stands for bytes that are no text. -/
def replacement : Char := '�'

/-- A byte behind the first one of a character. -/
def tail : Nat × Nat := (0x80, 0xBF)

/-- The ranges that the bytes behind a first byte lie in, if the byte starts a character. -/
def tails? (first : Nat) : Option (List (Nat × Nat)) :=
  if first ≤ 0x7F then some []
  else if first < 0xC2 then none
  else if first ≤ 0xDF then some [tail]
  else if first = 0xE0 then some [(0xA0, 0xBF), tail]
  else if first = 0xED then some [(0x80, 0x9F), tail]
  else if first ≤ 0xEF then some [tail, tail]
  else if first = 0xF0 then some [(0x90, 0xBF), tail, tail]
  else if first ≤ 0xF3 then some [tail, tail, tail]
  else if first = 0xF4 then some [(0x80, 0x8F), tail, tail]
  else none

/-- The longest start of `bytes` that lies in the given ranges, one byte each. -/
def matched : List (Nat × Nat) → List UInt8 → List UInt8
  | (low, high) :: ranges, b :: bytes =>
    if low ≤ b.toNat && b.toNat ≤ high then b :: matched ranges bytes else []
  | _, _ => []

/-- The character of a first byte and the bytes behind it: six bits of each of those, and what is
left of the first one. -/
def charOf (first : UInt8) (behind : List UInt8) : Char :=
  let start := if behind.isEmpty then first.toNat else first.toNat % (64 >>> behind.length)
  Char.ofNat (behind.foldl (fun n b => n * 64 + b.toNat % 64) start)

/-- Decode bytes. -/
def decode : List UInt8 → List Char
  | [] => []
  | first :: bytes =>
    match tails? first.toNat with
    | none => replacement :: decode bytes
    | some ranges =>
      let behind := matched ranges bytes
      let char := if behind.length = ranges.length then charOf first behind else replacement
      char :: decode (bytes.drop behind.length)
termination_by bytes => bytes.length
decreasing_by all_goals (simp only [List.length_cons, List.length_drop]; omega)

end ApiDoc.Text.Utf8
