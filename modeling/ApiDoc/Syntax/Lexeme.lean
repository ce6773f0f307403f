import ApiDoc.Syntax.Fault
import ApiDoc.Text.Alphabetic
import ApiDoc.Text.Numeric

/-!
# Lexemes

The first stage of reading a source file:

    text (List Char) ── Lexeme.split ──▶ lexemes (List Lexeme) ── Lexicon.tokensFrom ──▶ tokens

A lexeme is a piece of the text together with its class; the lexemes of a text, put together, are
the text. How to cut does not depend on the language: reserved words and significant line ends are
a matter of reading lexemes as tokens.
-/

namespace ApiDoc.Syntax

open Text (isAlphabetic isNumeric)

/-- The classes of lexeme. -/
inductive LexemeKind where
  /-- Spaces, tabs, carriage returns and form feeds. -/
  | blank
  | lineFeed
  /-- A first line that names an interpreter. -/
  | shebang
  | lineComment
  | blockComment
  | docComment
  | stringLit
  | charLit
  | word
  | number
  | ellipsis
  | punct
deriving DecidableEq, Repr

/-- A piece of the text. -/
structure Lexeme where
  kind : LexemeKind
  text : List Char
deriving DecidableEq, Repr

namespace Lexeme

/-! ### Character classes -/

/-- A space, tab, carriage return or form feed. -/
def isGap (c : Char) : Bool := c = ' ' || c = '\t' || c = '\r' || c = '\x0c'

/-- Can `c` start a word? -/
def isWordStart (c : Char) : Bool := c = '_' || c = '$' || isAlphabetic c

/-- Can `c` continue a word? -/
def isWordPart (c : Char) : Bool := c = '_' || c = '$' || isAlphabetic c || isNumeric c

/-- Can `c` continue a number? Numbers are written in ASCII. -/
def isNumberPart (c : Char) : Bool := c.isAlphanum || c = '_'

/-- The punctuation characters. -/
def punctuation : List Char :=
  ['{', '}', '(', ')', '[', ']', '<', '>', ';', ',', '.', '=', '@', '?', ':', '+', '-', '*', '/',
   '%', '!', '~', '&', '|', '^', '\\']

/-! ### Comments -/

/-- The text up to and with the first `*/`. -/
def throughCommentEnd : List Char → Option (List Char)
  | [] => none
  | '*' :: '/' :: _ => some ['*', '/']
  | c :: cs => (throughCommentEnd cs).map (c :: ·)

/-- A block comment is a doc comment if it starts with two stars and is not the empty comment. -/
def isDocComment (comment : List Char) : Bool :=
  ['/', '*', '*'].isPrefixOf comment && comment != ['/', '*', '*', '/']

/-! ### Literals -/

/-- The text up to and with the next `quote`, on one line. A backslash takes the character after it
along, whatever it is. -/
def throughQuote (quote : Char) : List Char → Option (List Char)
  | [] => none
  | [c] => if c = quote then some [c] else none
  | c :: d :: cs =>
    if c = quote then some [c]
    else if c = '\\' then (throughQuote quote cs).map fun rest => c :: d :: rest
    else if c = '\n' then none
    else (throughQuote quote (d :: cs)).map (c :: ·)

/-- The text up to and with the next three `quote`s. A backslash takes the character after it
along. -/
def throughTripleQuote (quote : Char) : List Char → Option (List Char)
  | [] => none
  | [_] => none
  | c :: d :: cs =>
    if c = '\\' then (throughTripleQuote quote cs).map fun rest => c :: d :: rest
    else if c = quote ∧ d = quote ∧ cs.head? = some quote then some [c, d, quote]
    else (throughTripleQuote quote (d :: cs)).map (c :: ·)

/-- The literal that starts with `quote` and goes on with `cs`. Three quotes in a row always open a
literal that three quotes close. -/
def literal? (quote : Char) (cs : List Char) : Option (List Char) :=
  match cs with
  | d :: e :: rest =>
    if d = quote ∧ e = quote then
      (throughTripleQuote quote rest).map fun text => quote :: quote :: quote :: text
    else (throughQuote quote cs).map (quote :: ·)
  | _ => (throughQuote quote cs).map (quote :: ·)

/-- Is a literal in single quotes a character: one character, or an escape? -/
def isCharLiteral (literal : List Char) : Bool :=
  match literal.tail.dropLast with
  | [] => false
  | c :: cs => c = '\\' || cs.isEmpty

/-! ### Numbers -/

/-- The number that `cs` starts with. A point belongs to it only if a digit follows. -/
def numberOf (cs : List Char) : List Char :=
  let whole := cs.takeWhile isNumberPart
  match cs.dropWhile isNumberPart with
  | '.' :: d :: rest =>
    if d.isDigit then whole ++ '.' :: d :: rest.takeWhile isNumberPart else whole
  | _ => whole

/-! ### Cutting -/

/-- The class and the text of the lexeme that starts with `c` and goes on in `cs`. -/
def first (c : Char) (cs : List Char) : Except Fault (LexemeKind × List Char) :=
  if isGap c then .ok (.blank, c :: cs.takeWhile isGap)
  else if c = '\n' then .ok (.lineFeed, [c])
  else if c = '/' ∧ cs.head? = some '/' then .ok (.lineComment, c :: cs.takeWhile (· ≠ '\n'))
  else if c = '/' ∧ cs.head? = some '*' then
    match throughCommentEnd cs.tail with
    | none => .error .unterminatedComment
    | some rest =>
      let comment := '/' :: '*' :: rest
      .ok (if isDocComment comment then .docComment else .blockComment, comment)
  else if c = '"' ∨ c = '\'' then
    match literal? c cs with
    | none => .error .unterminatedString
    | some literal =>
      .ok (if c = '\'' ∧ isCharLiteral literal then .charLit else .stringLit, literal)
  else if isWordStart c then .ok (.word, c :: cs.takeWhile isWordPart)
  else if c.isDigit then .ok (.number, numberOf (c :: cs))
  else if c = '.' ∧ cs.take 2 = ['.', '.'] then .ok (.ellipsis, ['.', '.', '.'])
  else if punctuation.contains c then .ok (.punct, [c])
  else .error (.strayCharacter c)

/-- What keeps a text from being cut: the text before the place of the fault, and the fault. -/
structure CutError where
  before : List Char
  fault : Fault
deriving DecidableEq, Repr

/-- Cut a text into lexemes. -/
def split : List Char → Except CutError (List Lexeme)
  | [] => .ok []
  | c :: cs =>
    match first c cs with
    | .error fault => .error ⟨[], fault⟩
    | .ok (kind, text) =>
      match split (cs.drop (text.length - 1)) with
      | .error e => .error { e with before := text ++ e.before }
      | .ok rest => .ok (⟨kind, text⟩ :: rest)
termination_by cs => cs.length

/-- Cut a whole text into lexemes; with `shebang`, a first line that starts with `#!` is one
lexeme. -/
def splitAll (shebang : Bool) (text : List Char) : Except CutError (List Lexeme) :=
  if shebang && ['#', '!'].isPrefixOf text then
    let line := text.takeWhile (· ≠ '\n')
    match split (text.dropWhile (· ≠ '\n')) with
    | .error e => .error { e with before := line ++ e.before }
    | .ok rest => .ok (⟨.shebang, line⟩ :: rest)
  else split text

end Lexeme

end ApiDoc.Syntax
