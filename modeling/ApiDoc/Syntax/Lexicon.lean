import ApiDoc.Syntax.Lexeme
import ApiDoc.Text.Unescaped

/-!
# Reading tokens

A lexicon says how a language reads lexemes as tokens: which words are reserved, whether line ends
count, and whether a first line may name an interpreter. Lexemes are the same in all languages; only
here do they part.
-/

namespace ApiDoc.Syntax

open Text (LineIndex Position Unescaped byteLength)

/-- What a language decides about its tokens. -/
structure Lexicon where
  /-- The reserved words. -/
  keywords : List String
  /-- Are line ends tokens? -/
  newlines : Bool
  /-- May the first line start with `#!`? -/
  shebang : Bool

namespace Lexicon

/-- The kind of token a lexeme makes, if it makes one in every language. -/
def tokenKind? (lexicon : Lexicon) (l : Lexeme) : Option TokenKind :=
  match l.kind with
  | .docComment => some .docComment
  | .stringLit => some .stringLit
  | .charLit => some .charLit
  | .word => some (if lexicon.keywords.contains (String.ofList l.text) then .keyword else .ident)
  | .number => some .number
  | .ellipsis => some .ellipsis
  | .punct => some .punct
  | .blank | .lineFeed | .shebang | .lineComment | .blockComment => none

/-- Does a lexeme that is dropped otherwise end the line? A line feed does, and so does a comment
that spans lines. -/
def endsLine (l : Lexeme) : Bool :=
  match l.kind with
  | .lineFeed => true
  | .blockComment => l.text.contains '\n'
  | _ => false

/-- The tokens of lexemes, the first of which starts at byte `offset` of the text; `place` gives the
position of an offset, and `spaced` says whether anything was dropped since the last token. -/
def tokensFrom (lexicon : Lexicon) (place : Nat → Position) (offset : Nat) (spaced : Bool) :
    List Lexeme → List Token
  | [] => [⟨.eof, "", place offset, spaced⟩]
  | l :: ls =>
    let behind := offset + byteLength l.text
    match lexicon.tokenKind? l with
    | some kind =>
      ⟨kind, String.ofList l.text, place offset, spaced⟩ :: tokensFrom lexicon place behind false ls
    | none =>
      let rest := tokensFrom lexicon place behind true ls
      if lexicon.newlines && endsLine l then ⟨.newline, "\n", place offset, spaced⟩ :: rest
      else rest

/-- Split a source into tokens. Escapes are decoded first; positions are those of the source as it
is written. The last token is the end of the source. -/
def tokenize (lexicon : Lexicon) (source : String) : Except ParseError (List Token) :=
  let index := LineIndex.ofSource source.toList
  let unescaped := Unescaped.ofSource source.toList
  let place := fun offset => index.position (unescaped.sourceOffset offset)
  match Lexeme.splitAll lexicon.shebang unescaped.text with
  | .error e => .error ⟨place (byteLength e.before), e.fault⟩
  | .ok lexemes => .ok (lexicon.tokensFrom place 0 false lexemes)

end Lexicon

end ApiDoc.Syntax
