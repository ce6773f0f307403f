import ApiDoc.Text.Ranges

/-!
# Blanks

The characters with the Unicode property White_Space, and what is done with them: cutting them off
the ends of a text, splitting a text into words, and collapsing their runs to one space.
-/

namespace ApiDoc.Text

/-- The code points with the property White_Space, in increasing order. -/
def blankRanges : Ranges :=
  [(0x9, 0xD), (0x20, 0x20), (0x85, 0x85), (0xA0, 0xA0), (0x1680, 0x1680), (0x2000, 0x200A),
   (0x2028, 0x2029), (0x202F, 0x202F), (0x205F, 0x205F), (0x3000, 0x3000)]

/-- Does `c` have the Unicode property White_Space? -/
def isBlank (c : Char) : Bool :=
  blankRanges.covers c

/-! ### Ends -/

/-- Drop the leading characters that satisfy `p`. -/
def cutStart (p : Char → Bool) (cs : List Char) : List Char :=
  cs.dropWhile p

/-- Drop the trailing characters that satisfy `p`. -/
def cutEnd (p : Char → Bool) (cs : List Char) : List Char :=
  (cs.reverse.dropWhile p).reverse

/-- Drop the blanks at both ends. -/
def trim (cs : List Char) : List Char :=
  cutEnd isBlank (cutStart isBlank cs)

/-- `trim` on strings. -/
def trimmed (s : String) : String :=
  String.ofList (trim s.toList)

/-! ### Words -/

/-- The maximal blank-free runs of a text; `word` is the run read so far, in reverse. -/
def wordsFrom (word : List Char) : List Char → List (List Char)
  | [] => if word.isEmpty then [] else [word.reverse]
  | c :: cs =>
    if isBlank c then
      if word.isEmpty then wordsFrom [] cs else word.reverse :: wordsFrom [] cs
    else wordsFrom (c :: word) cs

/-- The maximal blank-free runs of a text, in order. -/
def words (cs : List Char) : List (List Char) :=
  wordsFrom [] cs

/-- The words of a text, with one space between them. -/
def collapse (cs : List Char) : List Char :=
  [' '].intercalate (words cs)

end ApiDoc.Text
