import ApiDoc.Text.Segments
import ApiDoc.Text.Unescaped

/-!
# Spellings of numbers

Nothing computes with the numbers of a document, but their spelling is checked: an integer has to
fit into 64 bits, and a float without a minus sign has to be finite in double precision.
-/

namespace ApiDoc.Toml

/-! ### Digits -/

/-- Is a text made of digits of one kind, with single underscores between some of them? -/
def isDigits (digit : Char → Bool) (cs : List Char) : Bool :=
  (Text.segments '_' cs).all fun s => !s.isEmpty && s.all digit

/-- Digits without the underscores between them. -/
def joinedDigits (cs : List Char) : List Char := cs.filter (· ≠ '_')

/-- A text without its sign. -/
def unsigned : List Char → List Char
  | '+' :: cs => cs
  | '-' :: cs => cs
  | cs => cs

/-- Has a text a minus sign? -/
def isNegative (cs : List Char) : Bool := cs.head? = some '-'

/-- Is a text the digits of a decimal number, with no zero in front? -/
def isDecimal (cs : List Char) : Bool :=
  isDigits Char.isDigit cs && (cs = ['0'] || cs.head? ≠ some '0')

/-- Is a character a hexadecimal digit? -/
def isHexDigit (c : Char) : Bool := (Text.hexValue? c).isSome

/-- The number that digits spell in a base. -/
def valueIn (base : Nat) (cs : List Char) : Nat :=
  (joinedDigits cs).foldl (fun n c => n * base + (Text.hexValue? c).getD 0) 0

/-! ### Integers -/

/-- The greatest integer of 64 bits; the least is one further from zero. -/
def greatest : Nat := 0x7FFFFFFFFFFFFFFF

/-- Does a text spell an integer that fits into 64 bits? -/
def isInteger : List Char → Bool
  | '0' :: 'x' :: cs => isDigits isHexDigit cs && valueIn 16 cs ≤ greatest
  | '0' :: 'o' :: cs => isDigits (fun c => '0' ≤ c && c ≤ '7') cs && valueIn 8 cs ≤ greatest
  | '0' :: 'b' :: cs => isDigits (fun c => c = '0' || c = '1') cs && valueIn 2 cs ≤ greatest
  | cs =>
    let limit := if isNegative cs then greatest + 1 else greatest
    isDecimal (unsigned cs) && valueIn 10 (unsigned cs) ≤ limit

/-! ### Floats -/

/-- A decimal number without its sign: its digits, read as a whole number, times ten to the power of
the exponent. -/
structure Decimal where
  digits : List Char
  exponent : Int
deriving DecidableEq, Repr

namespace Decimal

/-- The exponent that a text spells; nothing stands for zero. -/
def exponent? : List Char → Option Int
  | [] => some 0
  | c :: cs =>
    if (c = 'e' || c = 'E') && isDigits Char.isDigit (unsigned cs) then
      let n : Int := valueIn 10 (unsigned cs)
      some (if isNegative cs then -n else n)
    else none

/-- The number that a text spells with a fraction, an exponent, or both. -/
def ofChars? (cs : List Char) : Option Decimal :=
  let isDigitPart := fun (c : Char) => c.isDigit || c = '_'
  let whole := cs.takeWhile isDigitPart
  if isDecimal whole then
    match cs.dropWhile isDigitPart with
    | [] => none
    | '.' :: rest =>
      let fraction := rest.takeWhile isDigitPart
      if isDigits Char.isDigit fraction then
        (exponent? (rest.dropWhile isDigitPart)).map fun e =>
          ⟨joinedDigits (whole ++ fraction), e - (joinedDigits fraction).length⟩
      else none
    | rest => (exponent? rest).map fun e => ⟨joinedDigits whole, e⟩
  else none

/-- The least number that is infinite in double precision: it lies halfway between the greatest
finite double and the next power of two, and has 309 digits. -/
def infinite : Nat := 1 <<< 1024 - 1 <<< 970

/-- Is a number infinite in double precision? Only its first 309 digits can tell, and only if the
point stands behind them. -/
def isInfinite (d : Decimal) : Bool :=
  let digits := d.digits.dropWhile (· = '0')
  let wholeDigits := digits.length + d.exponent
  !digits.isEmpty
    && (wholeDigits > 309
      || wholeDigits = 309 && infinite ≤ valueIn 10 ((digits.rightpad 309 '0').take 309))

end Decimal

/-- Does a text spell a float? -/
def isFloat (cs : List Char) : Bool :=
  let size := unsigned cs
  size = ['i', 'n', 'f'] || size = ['n', 'a', 'n']
    || (Decimal.ofChars? size).any fun d => isNegative cs || !d.isInfinite

end ApiDoc.Toml
