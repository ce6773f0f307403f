import ApiDoc.Syntax.Grammar.TypeDef

/-!
# Java files

A Java file holds a package clause, imports and type declarations, each ended by a semicolon or a
body. Modifiers are read before it is known what they belong to. The tree is in Java's own
vocabulary, and is normalized later.
-/

namespace ApiDoc.Syntax

/-- The Java grammar. -/
def Grammar.java : Grammar JavaKind where
  language := .java
  kind := id
  typeKind := fun word =>
    if word = "class" then .classDef else if word = "interface" then .interfaceDef else .enumDef

namespace Java

/-- Take a declaration at the top of a file. Modifiers before a package clause are dropped. -/
def declaration : Parser (Tree JavaKind) := do
  let start ← get
  let modifiers ← Grammar.java.modifiers
  let c ← get
  if c.token.isKeyword "package" then Grammar.java.packageDef
  else if c.token.isKeyword "import" && modifiers.children.isEmpty then Grammar.java.importDef
  else if Grammar.java.atTypeDef c then Grammar.java.topTypeDef start modifiers
  else Parser.unexpected "type declaration"

/-- A round of taking a file: take a declaration, or stop at the end of the source. -/
def fileRound (found : List (Tree JavaKind)) :
    Parser (Parser.Step (List (Tree JavaKind)) (List (Tree JavaKind))) := do
  Grammar.java.passSeparators
  if (← Parser.peek).isEof then return .done found
  return .next (found ++ [← declaration])

/-- Take a whole file. -/
def file : Parser (Tree JavaKind) := do
  let declarations ← Parser.iterate [] fileRound
  return Grammar.java.unit declarations

/-- Read a Java source into a tree of its own vocabulary. -/
def parse (source : String) : Except ParseError (Tree JavaKind) := do
  let tokens ← Language.java.lexicon.tokenize source
  file.read (Cursor.ofTokens tokens)

end Java

end ApiDoc.Syntax
