import ApiDoc.Syntax.Cursor

/-!
# Reading from a cursor

A parser moves a cursor and returns a value or an error; the cursor stays where an error left it.
Every repetition is an instance of `iterate`, which ends because each round has to use up a token.
-/

namespace ApiDoc.Syntax

open Text (Position)

/-- A parser of values of type `α`. -/
abbrev Parser (α : Type) := EStateM ParseError Cursor α

namespace Parser

variable {σ α : Type}

/-- Run a parser, and forget where it stopped. -/
def read (p : Parser α) (c : Cursor) : Except ParseError α :=
  match p c with
  | .ok a _ => .ok a
  | .error e _ => .error e

/-! ### Repetition -/

/-- What a round of a repetition decides. -/
inductive Step (σ α : Type) where
  /-- Go on with a new state. -/
  | next (state : σ)
  /-- Stop with a result. -/
  | done (result : α)

/-- Run rounds of `body` from `state` until one stops. A round that goes on without using up a token
is an error, so that every repetition ends. -/
def iterateFrom (body : σ → Parser (Step σ α)) (state : σ) (c : Cursor) :
    EStateM.Result ParseError Cursor α :=
  match body state c with
  | .error e d => .error e d
  | .ok (.done result) d => .ok result d
  | .ok (.next state') d =>
    if d.remaining < c.remaining then iterateFrom body state' d
    else .error ⟨d.pos, .stalled⟩ d
termination_by c.remaining

/-- Run rounds of `body` until one stops. -/
def iterate (state : σ) (body : σ → Parser (Step σ α)) : Parser α :=
  fun c => iterateFrom body state c

end Parser

/-- A monad that runs parsers and repeats what it runs. Parsers form one; a reader that keeps
something beside the cursor forms another. -/
class MonadParser (m : Type → Type) where
  /-- Run a parser. -/
  run {α : Type} : Parser α → m α
  /-- Run rounds until one stops. -/
  iterate {σ α : Type} : σ → (σ → m (Parser.Step σ α)) → m α

instance : MonadParser Parser := ⟨fun p => p, Parser.iterate⟩

instance {m : Type → Type} [MonadParser m] : MonadLift Parser m := ⟨MonadParser.run⟩

namespace Parser

variable {σ α : Type}

/-! ### Single tokens -/

/-- The cursor itself. -/
def cursor : Parser Cursor := get

/-- The current token. -/
def peek : Parser Token := do
  return (← get).token

/-- The position of the current token. -/
def pos : Parser Position := do
  return (← get).pos

/-- Take the current token; the end of the source is left in place. -/
def bump : Parser Token := do
  let c ← get
  set c.next
  return c.token

/-- Is the current token the punctuation character `p`? -/
def atPunct (p : Char) : Parser Bool := do
  return (← peek).isPunct p

/-- Is the current token the keyword `word`? -/
def atKeyword (word : String) : Parser Bool := do
  return (← peek).isKeyword word

/-- Take the current token if it satisfies `p`, and say whether it did. -/
def eatIf (p : Token → Bool) : Parser Bool := do
  let c ← get
  if p c.token then
    set c.next
    return true
  else return false

/-- Take the punctuation character `p` if it is there. -/
def eatPunct (p : Char) : Parser Bool := eatIf (·.isPunct p)

/-- Take the keyword `word` if it is there. -/
def eatKeyword (word : String) : Parser Bool := eatIf (·.isKeyword word)

/-- Fail at the current token. -/
def unexpected (expected : String) : Parser α := do
  throw ((← get).unexpected expected)

/-- Take a token that satisfies `p`; otherwise, fail. -/
def expect (p : Token → Bool) (expected : String) : Parser Token := do
  if p (← peek) then bump else unexpected expected

/-- Take the punctuation character `p`. -/
def expectPunct (p : Char) : Parser Token :=
  expect (·.isPunct p) ("'" ++ p.toString ++ "'")

/-- Take the keyword `word`. -/
def expectKeyword (word : String) : Parser Token :=
  expect (·.isKeyword word) ("'" ++ word ++ "'")

/-- Take a name: an identifier, or one of the reserved words in `soft`. -/
def expectName (soft : List String) : Parser Token :=
  expect (·.isName soft) "identifier"

/-- Pass over line ends. -/
def skipNewlines : Parser Unit := modify Cursor.skipNewlines

/-! ### Marks -/

/-- Fail if slot `mark` is ahead of the cursor. -/
def checkMark (mark : Nat) : Parser Unit := do
  let c ← get
  if c.index < mark then throw ⟨c.pos, .markAhead⟩

/-- The text from slot `mark` up to the cursor. -/
def textSince (mark : Nat) : Parser String := do
  checkMark mark
  return (← get).textSince mark

/-- Go back to slot `mark`. -/
def rewind (mark : Nat) : Parser Unit := do
  checkMark mark
  modify (·.moveTo mark)

/-- Can `p` be read? The cursor goes as far as `p` takes it. -/
def succeeds (p : Parser α) : Parser Bool := fun c =>
  match p c with
  | .ok _ d => .ok true d
  | .error e d => if e.fault.isInternal then .error e d else .ok false d

/-- Run `p`, and go back to where it started. -/
def lookahead (p : Parser α) : Parser α := do
  let mark := (← get).index
  let a ← p
  rewind mark
  return a

/-! ### Runs of tokens -/

/-- The bracket that closes the bracket `text` opens. -/
def closing? (text : String) : Option Char :=
  if text = "(" then some ')'
  else if text = "[" then some ']'
  else if text = "\x7b" then some '}'
  else none

/-- The closing brackets that are due after a token, innermost first, if `due` were due before. -/
def trackBracket (due : List Char) (t : Token) : Except Fault (List Char) :=
  if t.kind ≠ .punct then
    if due.isEmpty then .error .noBracket else .ok due
  else
    match closing? t.text with
    | some close => .ok (close :: due)
    | none =>
      if t.closes then
        let found := t.text.toList.headD ')'
        match due with
        | [] => .error (.strayBracket found)
        | expected :: outer =>
          if expected = found then .ok outer else .error (.wrongBracket found expected)
      else .ok due

/-- A round of taking a bracketed run that starts with the token `start`: take a token, and keep
track of the closing brackets that are due. -/
def bracketRound (start : Token) (due : List Char) : Parser (Step (List Char) Unit) := do
  let t ← bump
  if t.isEof then throw ⟨start.pos, .neverClosed start.text⟩
  match trackBracket due t with
  | .error fault => throw ⟨t.pos, fault⟩
  | .ok [] => return .done ()
  | .ok due' => return .next due'

/-- Take a bracketed run, from the bracket that opens it through the one that closes it. Brackets of
all three kinds have to match inside. -/
def skipBalanced : Parser Unit := do
  iterate [] (bracketRound (← peek))

/-- A round of taking tokens up to one where `stop` holds: take a token or a bracketed run. -/
def untilRound (stop : Cursor → Bool) (_ : Unit) : Parser (Step Unit Unit) := do
  let c ← get
  if c.token.isEof || stop c then return .done ()
  else if c.token.opens then
    skipBalanced
    return .next ()
  else if c.token.closes then return .done ()
  else
    let _ ← bump
    return .next ()

/-- Take tokens up to the first one, outside brackets, where `stop` holds, a bracket closes or the
source ends. -/
def skipUntil (stop : Cursor → Bool) : Parser Unit := iterate () (untilRound stop)

/-- Is the cursor at a dot with an identifier behind it? -/
def atDottedIdent : Parser Bool := do
  let c ← get
  return c.token.isPunct '.' && (c.peek 1).kind = .ident

/-- A round of taking a dotted name: take a dot and the identifier behind it. -/
def dottedRound (name : String) : Parser (Step String String) := do
  if ← atDottedIdent then
    let _ ← bump
    let segment ← bump
    return .next (name ++ "." ++ segment.text)
  else return .done name

/-- Take a dotted name. -/
def qualifiedName (soft : List String) : Parser String := do
  let first ← expectName soft
  iterate first.text dottedRound

/-- May a token stand inside angle brackets? -/
def isTypeArgumentPart (t : Token) : Bool :=
  match t.kind with
  | .punct => ["<", ">", ",", ".", "?", "&", "[", "]", "@"].contains t.text
  | .ident | .keyword | .newline => true
  | _ => false

/-- How many angle brackets are open behind a token, if `depth` were open before. -/
def depthBehind (depth : Nat) (t : Token) : Nat :=
  if t.isPunct '<' then depth + 1 else if t.isPunct '>' then depth - 1 else depth

/-- A round of taking type arguments that start with the token `start`. -/
def angleRound (start : Token) (depth : Nat) : Parser (Step Nat Unit) := do
  let t ← peek
  if t.isEof then throw ⟨start.pos, .neverClosed "<"⟩
  else if !isTypeArgumentPart t then unexpected "type argument"
  else
    let _ ← bump
    if depthBehind depth t = 0 then return .done () else return .next (depthBehind depth t)

/-- Take type arguments, from `<` through the `>` that closes it. -/
def skipAngles : Parser Unit := do
  let start ← expectPunct '<'
  iterate 1 (angleRound start)

/-- Is the cursor at a pair of square brackets? -/
def atDimension : Parser Bool := do
  let c ← get
  return c.token.isPunct '[' && (c.peek 1).isPunct ']'

/-- Take pairs of square brackets, and return their text. -/
def dimensions : Parser String :=
  iterate "" fun dims => do
    if ← atDimension then
      let _ ← bump
      let _ ← bump
      return .next (dims ++ "[]")
    else return .done dims

/-- Take a class type: a dotted name, with type arguments on any segment. -/
def skipClassType (soft : List String) : Parser Unit := do
  let _ ← expectName soft
  iterate () fun _ => do
    if ← atPunct '<' then skipAngles
    if ← atDottedIdent then
      let _ ← bump
      let _ ← bump
      return .next ()
    else return .done ()

/-- Take a type, and return it as written: one of the `primitives` or a class type, then pairs of
square brackets. -/
def typeText (primitives soft : List String) : Parser String := do
  let mark := (← get).index
  let t ← peek
  if t.kind = .keyword && primitives.contains t.text then
    let _ ← bump
  else skipClassType soft
  let _ ← dimensions
  textSince mark

end Parser

end ApiDoc.Syntax
