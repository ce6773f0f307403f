import ApiDoc.Text.Position

/-!
# Tokens

The words of a source file as the declaration grammar sees them, each with its position and with a
note whether anything stood between it and the token before. That note is all that is left of blanks
and comments, and it is what a run of tokens is written out with (`joined`).
-/

namespace ApiDoc.Syntax

open Text (Position)

/-- The kinds of token. -/
inductive TokenKind where
  | ident
  | keyword
  | number
  | stringLit
  | charLit
  /-- A comment that documents the declaration after it. -/
  | docComment
  /-- The end of a line, where line ends are significant. -/
  | newline
  /-- A single punctuation or operator character. -/
  | punct
  /-- Three dots. -/
  | ellipsis
  /-- The end of the source. -/
  | eof
deriving DecidableEq, Repr

/-- A token. -/
structure Token where
  kind : TokenKind
  text : String
  pos : Position
  /-- Does a blank, a comment or a line end stand before the token? -/
  spaced : Bool
deriving DecidableEq, Repr

namespace Token

/-- Is this the punctuation character `c`? -/
def isPunct (t : Token) (c : Char) : Bool :=
  t.kind = .punct && t.text = c.toString

/-- Is this the keyword `word`? -/
def isKeyword (t : Token) (word : String) : Bool :=
  t.kind = .keyword && t.text = word

/-- Is this a word, reserved or not, spelled `word`? -/
def isWord (t : Token) (word : String) : Bool :=
  (t.kind = .ident || t.kind = .keyword) && t.text = word

/-- Is this the end of the source? -/
def isEof (t : Token) : Bool := t.kind = .eof

/-- Is this the end of a line? -/
def isNewline (t : Token) : Bool := t.kind = .newline

/-- Can the token be a name? An identifier can, and so can the reserved words of `soft`. -/
def isName (t : Token) (soft : List String) : Bool :=
  t.kind = .ident || (t.kind = .keyword && soft.contains t.text)

/-- Does the token open a bracket? -/
def opens (t : Token) : Bool := t.isPunct '(' || t.isPunct '[' || t.isPunct '{'

/-- Does the token close a bracket? -/
def closes (t : Token) : Bool := t.isPunct ')' || t.isPunct ']' || t.isPunct '}'

/-- The token as an error message names it. -/
def describe (t : Token) : String :=
  match t.kind with
  | .eof => "end of input"
  | .newline => "end of line"
  | .stringLit => "string literal"
  | _ => "'" ++ t.text ++ "'"

/-- Append the text of a token to `out`, behind a space if the source had a gap there. Line ends
leave no trace of their own. -/
def appendTo (out : String) (t : Token) : String :=
  if t.isNewline then out
  else if t.spaced && !out.isEmpty then out ++ " " ++ t.text
  else out ++ t.text

/-- Tokens written one after the other, with one space wherever the source had a gap. -/
def joined (tokens : List Token) : String :=
  tokens.foldl appendTo ""

end Token

end ApiDoc.Syntax
