import ApiDoc.Syntax.Lexicon
import ApiDoc.Syntax.Parser
import ApiDoc.Syntax.Tree
import ApiDoc.Text.Blank

/-!
# The declaration grammar

Java and Groovy declare types and members in the same way, up to a few points. One grammar reads
both; a `Grammar` value says which language is read and in which vocabulary the tree is built.

The languages differ in their words (`Language.modifierWords`, `Language.typeWords`) and in what a
line end is. To Groovy it is a token, which is passed over where a declaration may go on in the next
line and which may end an expression; to Java it is none, and an expression goes on up to a
semicolon. `pastLines`, `pastSeparators`, `peek` and `skipExpression` hold these differences, so
that a construct of both languages is written once.
-/

namespace ApiDoc.Syntax

/-- The languages that are read. -/
inductive Language where
  | java
  | groovy
deriving DecidableEq, Repr

namespace Language

/-- The reserved words of Java. -/
def javaKeywords : List String :=
  ["abstract", "assert", "boolean", "break", "byte", "case", "catch", "char", "class", "const",
   "continue", "default", "do", "double", "else", "enum", "extends", "false", "final", "finally",
   "float", "for", "goto", "if", "implements", "import", "instanceof", "int", "interface", "long",
   "native", "new", "null", "package", "private", "protected", "public", "return", "short",
   "static", "strictfp", "super", "switch", "synchronized", "this", "throw", "throws", "transient",
   "true", "try", "void", "volatile", "while"]

/-- The reserved words of Groovy. -/
def groovyKeywords : List String :=
  ["abstract", "as", "assert", "boolean", "break", "byte", "case", "catch", "char", "class",
   "const", "continue", "def", "default", "do", "double", "else", "enum", "extends", "false",
   "final", "finally", "float", "for", "goto", "if", "implements", "import", "in", "instanceof",
   "int", "interface", "long", "native", "new", "null", "package", "private", "protected",
   "public", "return", "short", "static", "strictfp", "super", "switch", "synchronized", "this",
   "threadsafe", "throw", "throws", "trait", "transient", "true", "try", "void", "volatile",
   "while"]

/-- The reserved words of a language. -/
def keywords : Language → List String
  | java => javaKeywords
  | groovy => groovyKeywords

/-- The reserved words that may still be names. -/
def softKeywords : Language → List String
  | java => []
  | groovy => ["as", "in", "trait", "threadsafe"]

/-- The reserved words that modify a declaration. -/
def modifierWords : Language → List String
  | java =>
    ["public", "protected", "private", "static", "final", "abstract", "native", "synchronized",
     "transient", "volatile", "strictfp", "default"]
  | groovy =>
    ["public", "protected", "private", "static", "final", "abstract", "native", "synchronized",
     "transient", "volatile", "strictfp", "threadsafe", "default"]

/-- The reserved words that declare a type. -/
def typeWords : Language → List String
  | java => ["class", "interface", "enum"]
  | groovy => ["class", "interface", "enum", "trait"]

/-- How a language reads lexemes as tokens. -/
def lexicon : Language → Lexicon
  | java => { keywords := javaKeywords, newlines := false, shebang := false }
  | groovy => { keywords := groovyKeywords, newlines := true, shebang := true }

end Language

/-- The reserved words that are types. -/
def primitives : List String :=
  ["boolean", "byte", "char", "short", "int", "long", "float", "double", "void"]

/-- Class bodies, those of enum constants included, nest at most this deep. -/
def maxNesting : Nat := 64

/-- A grammar that builds trees over the vocabulary `κ`. -/
structure Grammar (κ : Type) where
  language : Language
  /-- How the constructs that both languages have are tagged. -/
  kind : JavaKind → κ
  /-- The kind of type that a keyword declares. -/
  typeKind : String → κ

namespace Grammar

variable {κ : Type} (g : Grammar κ)

/-- The reserved words that may be names. -/
def soft : List String := g.language.softKeywords

/-- A node without children. -/
def leaf (kind : JavaKind) (text : String) (pos : Text.Position) : Tree κ :=
  .leaf (g.kind kind) text pos

/-- Can the token be a name? -/
def isName (t : Token) : Bool := t.isName g.soft

/-- Take a name. -/
def name : Parser String := do
  return (← Parser.expectName g.soft).text

/-- Take a type, and return it as written. -/
def typeText : Parser String := Parser.typeText primitives g.soft

/-! ### Line ends -/

/-- The cursor behind the line ends it stands at. -/
def pastLines (c : Cursor) : Cursor :=
  match g.language with
  | .java => c
  | .groovy => c.skipNewlines

/-- Pass over line ends. -/
def passLines : Parser Unit := modify g.pastLines

/-- The cursor behind the semicolons and line ends it stands at. -/
def pastSeparators (c : Cursor) : Cursor :=
  match g.language with
  | .java => c.skipWhile (·.isPunct ';')
  | .groovy => c.skipSeparators

/-- Pass over semicolons and line ends. -/
def passSeparators : Parser Unit := modify g.pastSeparators

/-- The token `n` places ahead, not counting line ends. -/
def peek (c : Cursor) (n : Nat) : Token :=
  match g.language with
  | .java => c.peek n
  | .groovy => c.peekSignificant n

/-- Take the end of a declaration: a semicolon in Java; in Groovy a line end, the end of the body
or the end of the source do as well, and are left in place. -/
def endOfDeclaration : Parser Unit := do
  match g.language with
  | .java =>
    let _ ← Parser.expectPunct ';'
  | .groovy =>
    if ← Parser.eatPunct ';' then return
    let t ← Parser.peek
    if t.isNewline || t.isPunct '}' || t.isEof then return
    Parser.unexpected "end of declaration"

/-! ### Unread expressions -/

/-- At a line end, does the expression before it go on behind it? It does if the line ends in an
operator, or if the next line starts with a member access. -/
def continuesOnNextLine (c : Cursor) : Bool :=
  let dangling :=
    match c.previous? with
    | none => false
    | some t =>
      t.kind = .punct
        && ["=", "+", "-", "*", "/", "%", "&", "|", "^", "!", "~", "<", ">", "?", ":", ",",
          "."].contains t.text
  let next := c.peekSignificant 0
  let chained := next.isPunct '.' || (next.isPunct '?' && (c.peekSignificant 1).isPunct '.')
  dangling || chained

/-- A round of taking a Groovy expression: take what is left of it on its line. -/
def lineRound (atComma : Bool) (_ : Unit) : Parser (Parser.Step Unit Unit) := do
  Parser.skipUntil fun c =>
    c.token.isPunct ';' || c.token.isNewline || (atComma && c.token.isPunct ',')
  let c ← get
  if c.token.isNewline && continuesOnNextLine c then
    Parser.skipNewlines
    return .next ()
  else return .done ()

/-- Take an expression or a statement unread. It ends at a semicolon, at a closing bracket and, with
`atComma`, at a comma; in Groovy also at a line end that does not carry it on. -/
def skipExpression (atComma : Bool) : Parser Unit :=
  match g.language with
  | .java => Parser.skipUntil fun c => c.token.isPunct ';' || (atComma && c.token.isPunct ',')
  | .groovy => Parser.iterate () (lineRound atComma)

/-- Take an expression unread, as a node that holds its text. -/
def expression (atComma : Bool) : Parser (Tree κ) := do
  let c ← get
  g.skipExpression atComma
  return g.leaf .expr (← Parser.textSince c.index) c.pos

/-- Take a bracketed run unread, as a node that holds the text between the parentheses. -/
def parenthesized : Parser (Tree κ) := do
  let c ← get
  Parser.skipBalanced
  let text ← Parser.textSince c.index
  return g.leaf .expr (String.ofList (Text.trim (inner text.toList))) c.pos
where
  /-- What stands between the parentheses of a text, if it is between parentheses. -/
  inner (cs : List Char) : List Char :=
    match cs with
    | '(' :: rest => if rest.getLast? = some ')' then rest.dropLast else cs
    | _ => cs

/-- Take a bracketed body unread. -/
def block : Parser (Tree κ) := do
  let p ← Parser.pos
  Parser.skipBalanced
  return g.leaf .slist "" p

/-! ### Modifiers -/

/-- Take an annotation. -/
def annotationMark : Parser (Tree κ) := do
  let sign ← Parser.expectPunct '@'
  let name ← Parser.qualifiedName g.soft
  let node := g.leaf .annotationMark name sign.pos
  if ← Parser.atPunct '(' then return node.withChildren [← g.parenthesized]
  else return node

/-- Does a modifier stand at the cursor? In Groovy, a reserved word before a dot is no modifier. -/
def atModifier (c : Cursor) : Bool :=
  c.token.kind = .keyword && g.language.modifierWords.contains c.token.text &&
    (g.language = .java || !(c.peek 1).isPunct '.')

/-- A round of taking modifiers: take one, or an annotation. -/
def modifiersRound (found : List (Tree κ)) :
    Parser (Parser.Step (List (Tree κ)) (List (Tree κ))) := do
  let c ← get
  if c.token.isPunct '@' && !(c.peek 1).isKeyword "interface" then
    let a ← g.annotationMark
    g.passLines
    return .next (found ++ [a])
  else if g.atModifier c then
    let t ← Parser.bump
    g.passLines
    return .next (found ++ [g.leaf .modifier t.text t.pos])
  else return .done found

/-- Take the modifiers and annotations before a declaration. -/
def modifiers : Parser (Tree κ) := do
  let p ← Parser.pos
  let found ← Parser.iterate [] g.modifiersRound
  return (g.leaf .modifiers "" p).withChildren found

/-! ### Types -/

/-- Take a type as a node. -/
def typeNode : Parser (Tree κ) := do
  let p ← Parser.pos
  return g.leaf .type (← g.typeText) p

/-- A round of taking types between commas: take a type and the comma behind it. -/
def typesRound (types : List (Tree κ)) :
    Parser (Parser.Step (List (Tree κ)) (List (Tree κ))) := do
  g.passLines
  let type ← g.typeNode
  let types := types ++ [type]
  if (g.peek (← get) 0).isPunct ',' then
    g.passLines
    let _ ← Parser.bump
    return .next types
  else return .done types

/-- Take a clause of types: a keyword and types between commas. -/
def typeList (kind : JavaKind) (keyword : String) : Parser (Tree κ) := do
  let word ← Parser.expectKeyword keyword
  let types ← Parser.iterate [] g.typesRound
  return (g.leaf kind "" word.pos).withChildren types

/-- Take the bounds of a type parameter. -/
def bounds : Parser Unit :=
  Parser.iterate () fun _ => do
    let _ ← g.typeText
    if ← Parser.eatPunct '&' then return .next () else return .done ()

/-- A round of taking type parameters: take one, with its bounds and what follows it. -/
def typeParametersRound (found : List (Tree κ)) :
    Parser (Parser.Step (List (Tree κ)) (List (Tree κ))) := do
  g.passLines
  let c ← get
  let _ ← g.name
  if ← Parser.eatKeyword "extends" then g.bounds
  let found := found ++ [g.leaf .typeParameter (← Parser.textSince c.index) c.pos]
  g.passLines
  if ← Parser.eatPunct ',' then return .next found
  let _ ← Parser.expectPunct '>'
  return .done found

/-- Take type parameters, from `<` through `>`. -/
def typeParameters : Parser (Tree κ) := do
  let start ← Parser.expectPunct '<'
  let found ← Parser.iterate [] g.typeParametersRound
  return (g.leaf .typeParameters "" start.pos).withChildren found

end Grammar

end ApiDoc.Syntax
