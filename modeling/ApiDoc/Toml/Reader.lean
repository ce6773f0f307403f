import ApiDoc.Toml.Table

/-!
# Reading TOML

`Toml.parse` reads a document into the entries of its outermost table. A reader takes what it reads
from the front of the text, or fails.
-/

namespace ApiDoc.Toml

/-- A reader of text. -/
abbrev Reader := StateT (List Char) Option

namespace Reader

/-! ### Characters -/

/-- Take a text that stands next; if another one does, take nothing. -/
def eat (start : List Char) : Reader Bool := fun cs =>
  match Text.afterStart? start cs with
  | some rest => some (true, rest)
  | none => some (false, cs)

/-- Take a text that must stand next. -/
def expect (start : List Char) : Reader Unit := fun cs =>
  (Text.afterStart? start cs).map fun rest => ((), rest)

/-- Take the next character. -/
def next : Reader Char
  | [] => none
  | c :: cs => some (c, cs)

/-- Take the longest run of characters of a kind. -/
def run (p : Char → Bool) : Reader (List Char) := fun cs =>
  some (cs.takeWhile p, cs.dropWhile p)

/-- Is the text at its end? -/
def atEnd : Reader Bool := fun cs => some (cs.isEmpty, cs)

/-- May a character stand in a comment or a string as it is? -/
def isPlain (c : Char) : Bool := c = '\t' || (c.toNat ≥ 0x20 && c.toNat ≠ 0x7F)

/-- Skip blanks within a line. -/
def skipBlanks : Reader Unit := do
  let _ ← run fun c => c = ' ' || c = '\t'

/-- Take a line end, if one stands next. -/
def eatLineEnd : Reader Bool := do
  if ← eat ['\n'] then return true
  eat ['\r', '\n']

/-- Skip a comment, if one stands next. -/
def skipComment : Reader Unit := do
  if ← eat ['#'] then
    let _ ← run isPlain

/-- Take what may follow on the line, and its end. -/
def endLine : Reader Unit := do
  skipBlanks
  skipComment
  unless ← atEnd do
    guard (← eatLineEnd)

/-- Skip blanks, comments and line ends, as often as `fuel` says at most. -/
def skipLinesFor : Nat → Reader Unit
  | 0 => pure ()
  | fuel + 1 => do
    skipBlanks
    skipComment
    if ← eatLineEnd then skipLinesFor fuel

/-- Skip blanks, comments and line ends. -/
def skipLines : Reader Unit := do skipLinesFor (← get).length

/-! ### Strings -/

/-- Take the number that `count` hexadecimal digits spell, as a character. -/
def hexChar (count : Nat) : Reader Char := fun cs =>
  let digits := cs.take count
  if digits.length = count && digits.all isHexDigit then
    let code := valueIn 16 digits
    if code.isValidChar then some (Char.ofNat code, cs.drop count) else none
  else none

/-- Take what stands behind a backslash. -/
def escaped : Reader Char := do
  let c ← next
  if c = 'b' then return '\x08'
  else if c = 't' then return '\t'
  else if c = 'n' then return '\n'
  else if c = 'f' then return '\x0c'
  else if c = 'r' then return '\r'
  else if c = '"' || c = '\\' then return c
  else if c = 'u' then hexChar 4
  else if c = 'U' then hexChar 8
  else failure

/-- Take the rest of a string on one line, behind its quote. -/
def basicFor : Nat → Reader (List Char)
  | 0 => failure
  | fuel + 1 => do
    let c ← next
    if c = '"' then return []
    else if c = '\\' then return (← escaped) :: (← basicFor fuel)
    else
      guard (isPlain c)
      return c :: (← basicFor fuel)

/-- Take the rest of a literal string on one line, behind its quote. -/
def literal : Reader (List Char) := do
  let cs ← run fun c => isPlain c && c ≠ '\''
  expect ['\'']
  return cs

/-- Take the end of a string of several lines: three quotes, which up to two more quotes of the
string itself may precede. Gives those, or nothing if the string goes on. -/
def eatFence (quote : Char) : Reader (Option (List Char)) := do
  let quotes ← run (· = quote)
  let count := quotes.length
  if count ≥ 3 then
    guard (count ≤ 5)
    return some (quotes.drop 3)
  else
    modify (quotes ++ ·)
    return none

/-- Skip blanks and line ends behind a backslash that ends a line. -/
def skipFold : Reader Unit := do
  skipBlanks
  guard (← eatLineEnd)
  let rec go : Nat → Reader Unit
    | 0 => pure ()
    | fuel + 1 => do
      skipBlanks
      if ← eatLineEnd then go fuel
  go (← get).length

/-- Take the rest of a string of several lines, behind its quotes. -/
def linesFor (quote : Char) : Nat → Reader (List Char)
  | 0 => failure
  | fuel + 1 => do
    match ← eatFence quote with
    | some last => return last
    | none =>
      if ← eatLineEnd then return '\n' :: (← linesFor quote fuel)
      let c ← next
      if c = '\\' && quote = '"' then
        match (← get).head? with
        | some d =>
          if d = ' ' || d = '\t' || d = '\n' || d = '\r' then
            skipFold
            linesFor quote fuel
          else return (← escaped) :: (← linesFor quote fuel)
        | none => failure
      else
        guard (isPlain c)
        return c :: (← linesFor quote fuel)

/-- Take a string of several lines, behind its quotes. A line end right behind them is no part of
it. -/
def lines (quote : Char) : Reader (List Char) := do
  let _ ← eatLineEnd
  linesFor quote ((← get).length + 1)

/-- Take a string on one line. -/
def lineString : Reader String := do
  if ← eat ['"'] then
    return String.ofList (← basicFor ((← get).length + 1))
  else
    expect ['\'']
    return String.ofList (← literal)

/-- Take a string. -/
def string : Reader String := do
  if ← eat ['"', '"', '"'] then return String.ofList (← lines '"')
  else if ← eat ['\'', '\'', '\''] then return String.ofList (← lines '\'')
  else lineString

/-! ### Keys -/

/-- May a character stand in a key without quotes? -/
def isKeyChar (c : Char) : Bool := c.isAlphanum || c = '_' || c = '-'

/-- Take one part of a key. -/
def simpleKey : Reader String := do
  match (← get).head? with
  | some '"' | some '\'' => lineString
  | _ =>
    let cs ← run isKeyChar
    guard !cs.isEmpty
    return String.ofList cs

/-- Take the parts of a key behind the first one, with the dots before them. -/
def dottedFor : Nat → Reader (List String)
  | 0 => pure []
  | fuel + 1 => do
    skipBlanks
    if ← eat ['.'] then
      skipBlanks
      let part ← simpleKey
      return part :: (← dottedFor fuel)
    else return []

/-- How many arrays and tables may lie around each other in a value, and how many parts a key may
have. -/
def maxDepth : Nat := 79

/-- Take a key: the parts before the last one, and the last one. -/
def key : Reader (List String × String) := do
  let first ← simpleKey
  let more ← dottedFor (← get).length
  let parts := first :: more
  guard (parts.length ≤ maxDepth)
  return (parts.dropLast, parts.getLastD "")

/-! ### Values -/

/-- Take the items of an array, behind its bracket. -/
def itemsFor (value : Reader Value) : Nat → Reader (List Value)
  | 0 => failure
  | fuel + 1 => do
    skipLines
    if ← eat [']'] then return []
    let v ← value
    skipLines
    if ← eat [','] then return v :: (← itemsFor value fuel)
    expect [']']
    return [v]

/-- Take the entries of a table on one line, behind its brace or a comma. -/
def pairsFor (value : Reader Value) : Nat → Entries → Reader Entries
  | 0, _ => failure
  | fuel + 1, es => do
    skipBlanks
    let (path, last) ← key
    expect ['=']
    skipBlanks
    let v ← value
    let es ← (es.define path last v : Option Entries)
    skipBlanks
    if ← eat [','] then pairsFor value fuel es
    else
      expect ['}']
      return es

/-- Take a table on one line, behind its brace. -/
def inlineTable (value : Reader Value) : Reader Value := do
  skipBlanks
  if ← eat ['}'] then return .table []
  let es ← pairsFor value ((← get).length + 1) []
  return .table (valuesOf es)

/-- May a character stand in a value without quotes? -/
def isWordChar (c : Char) : Bool :=
  c.isAlphanum || c = '_' || c = '+' || c = '-' || c = '.' || c = ':'

/-- Take a value without quotes. A date may be apart from its time by one space. -/
def word : Reader Value := do
  let cs ← run isWordChar
  let rest ← get
  if (Date.ofChars? cs).isSome && rest.head? = some ' '
      && (rest.drop 1).head?.any Char.isDigit then
    let _ ← next
    let time ← run isWordChar
    (Value.ofWord? (cs ++ ' ' :: time) : Option Value)
  else (Value.ofWord? cs : Option Value)

/-- Take a value without parts. -/
def scalar : Reader Value := do
  match (← get).head? with
  | some '"' | some '\'' => return .str (← string)
  | _ => word

/-- Take a value in which at most `depth` arrays and tables lie around each other. -/
def value : (depth : Nat) → Reader Value
  | 0 => scalar
  | depth + 1 => do
    if ← eat ['['] then return .array (← itemsFor (value depth) ((← get).length + 1))
    else if ← eat ['{'] then inlineTable (value depth)
    else scalar

/-! ### Documents -/

/-- What of a document is read: the entries of its outermost table, and the table that is open. -/
structure Document where
  entries : Entries := []
  opened : List String := []

/-- Take a header. -/
def header (d : Document) : Reader Document := do
  let repeated ← eat ['[', '[']
  unless repeated do expect ['[']
  skipBlanks
  let (path, last) ← key
  skipBlanks
  let opening := if repeated then Entries.openItem else Entries.openTable
  expect (if repeated then [']', ']'] else [']'])
  let entries ← (opening path last d.entries : Option Entries)
  return { entries, opened := path ++ [last] }

/-- Take a key with its value. -/
def pair (d : Document) : Reader Document := do
  let (path, last) ← key
  skipBlanks
  expect ['=']
  skipBlanks
  let v ← value maxDepth
  let entries ← (d.entries.inOpened d.opened (·.define path last v) : Option Entries)
  return { d with entries }

/-- Take the lines of a document, as often as `fuel` says at most. -/
def documentFor : Nat → Document → Reader Document
  | 0, _ => failure
  | fuel + 1, d => do
    skipBlanks
    if ← atEnd then return d
    let d ← match (← get).head? with
      | some '[' => header d
      | some '#' | some '\n' | some '\r' => pure d
      | _ => pair d
    endLine
    documentFor fuel d

end Reader

/-- Read a document, with or without a byte order mark. -/
def parse (text : String) : Option (List (String × Value)) := do
  let cs := text.toList
  let cs := (Text.afterStart? ['\uFEFF'] cs).getD cs
  let (d, _) ← Reader.documentFor (cs.length + 1) {} cs
  return valuesOf d.entries

end ApiDoc.Toml
