import ApiDoc.Syntax.Token
import ApiDoc.Text.Quoted

/-!
# Syntax errors

What can be wrong with a source file, where, and the wording of each fault. Faults come from cutting
a text into lexemes, from reading tokens, and from what is done to a tree later; `stalled` and
`markAhead` would be mistakes of a parser, and are kept apart from the others by `isInternal`.
-/

namespace ApiDoc.Syntax

open Text (Position)

/-- The causes of a syntax error. -/
inductive Fault where
  /-- A block comment has no end. -/
  | unterminatedComment
  /-- A string or character literal has no end. -/
  | unterminatedString
  /-- No token starts with this character. -/
  | strayCharacter (c : Char)
  /-- The source ends where something else is due. -/
  | unexpectedEnd (expected : String)
  /-- A token stands where something else is due. -/
  | unexpectedToken (found : Token) (expected : String)
  /-- The source ends inside a bracket. -/
  | neverClosed (opening : String)
  /-- A bracketed run is due and no bracket opens it. -/
  | noBracket
  /-- A closing bracket does not match the innermost open one. -/
  | wrongBracket (found expected : Char)
  /-- A closing bracket closes nothing. -/
  | strayBracket (found : Char)
  /-- Class bodies are nested beyond the limit. -/
  | nestedTooDeep
  /-- A field has type parameters. -/
  | typeParametersOnField
  /-- A repetition consumed nothing. -/
  | stalled
  /-- A mark that was set stands ahead of the cursor. -/
  | markAhead
  /-- A tag has no counterpart in the normalized vocabulary. -/
  | noCounterpart (tag : String)
  /-- The root of a tree is not a compilation unit. -/
  | wrongRoot (expected found : String)
  /-- Array dimensions stand behind a name that has no type. -/
  | dimensionsWithoutType (name : String)
  /-- A declaration has no list of modifiers. -/
  | noModifiers (name : String)
deriving DecidableEq, Repr

namespace Fault

/-- Does the fault keep the source from being split into tokens? -/
def isLexical : Fault → Bool
  | unterminatedComment | unterminatedString | strayCharacter _ => true
  | _ => false

/-- Would the fault be one of the parser, and not of the source? -/
def isInternal : Fault → Bool
  | stalled | markAhead => true
  | _ => false

/-- The wording of a fault. -/
def message : Fault → String
  | unterminatedComment => "unterminated comment"
  | unterminatedString => "unterminated string literal"
  | strayCharacter c => "unexpected character '" ++ String.ofList (Text.shownChar c) ++ "'"
  | unexpectedEnd expected => "unexpected end of input, expected " ++ expected
  | unexpectedToken found expected => "unexpected " ++ found.describe ++ ", expected " ++ expected
  | neverClosed opening => "unexpected end of input, '" ++ opening ++ "' is never closed"
  | noBracket => "expected a bracket"
  | wrongBracket found expected =>
    "unexpected '" ++ found.toString ++ "', expected '" ++ expected.toString ++ "'"
  | strayBracket found => "unexpected '" ++ found.toString ++ "'"
  | nestedTooDeep => "class nesting too deep"
  | typeParametersOnField => "type parameters on a field"
  | stalled => "no progress"
  | markAhead => "mark ahead of the cursor"
  | noCounterpart tag => "no normalized node type for " ++ tag
  | wrongRoot expected found => "expected " ++ expected ++ " at the root, found " ++ found
  | dimensionsWithoutType name => "array dimensions on '" ++ name ++ "' without a type"
  | noModifiers name => "declaration '" ++ name ++ "' has no modifier list"

end Fault

/-- A fault and the place where it was found. -/
structure ParseError where
  pos : Position
  fault : Fault
deriving DecidableEq, Repr

/-- The text of a syntax error. -/
def ParseError.message (e : ParseError) : String :=
  (if e.fault.isLexical then "token stream error at " else "syntax error at ")
    ++ e.pos.render ++ ": " ++ e.fault.message

end ApiDoc.Syntax
