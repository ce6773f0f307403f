import ApiDoc.Syntax.Grammar.TypeDef

/-!
# Groovy files

A Groovy file holds a package clause, imports and type declarations and, as a script, methods and
statements beside them. Line ends separate them; semicolons may. A method of a script is told from a
statement by looking ahead for its head (`looksLikeMethod`), after which the cursor is back where it
was.
-/

namespace ApiDoc.Syntax

/-- The Groovy grammar. -/
def Grammar.groovy : Grammar NodeKind where
  language := .groovy
  kind := JavaKind.normalized
  typeKind := fun word =>
    if word = "class" then .classDef
    else if word = "interface" then .interfaceDef
    else if word = "enum" then .enumDef
    else .traitDef

namespace Groovy

/-- Take the type of a method, and say whether there is one. Behind modifiers it may be missing. A
type that cannot be read leaves the cursor where reading it failed. -/
def methodType (hasModifiers : Bool) : Parser Bool := do
  if ← Parser.eatKeyword "def" then return true
  let c ← get
  if hasModifiers && Grammar.groovy.isName c.token && (c.peek 1).isPunct '(' then return false
  Parser.succeeds Grammar.groovy.typeText

/-- Take the head of a method, and say whether it is one: a type, a name and parameters, with a body
or a `throws` clause to follow. The body tells a method from a call. -/
def methodHead (hasModifiers : Bool) : Parser Bool := do
  let typed ← methodType hasModifiers
  let c ← get
  let named := (typed || hasModifiers) &&
    (Grammar.groovy.isName c.token || c.token.kind = .stringLit) && (c.peek 1).isPunct '('
  if !named then return false
  let _ ← Parser.bump
  if ← Parser.succeeds Parser.skipBalanced then
    let next := (← get).peekSignificant 0
    return next.isPunct '{' || next.isKeyword "throws"
  else return false

/-- Does a script method stand at the cursor? -/
def looksLikeMethod (hasModifiers : Bool) : Parser Bool :=
  Parser.lookahead (methodHead hasModifiers)

/-- Take a statement unread. -/
def statement : Parser (Tree NodeKind) := do
  let start ← get
  Grammar.groovy.skipExpression false
  if (← get).index = start.index then Parser.unexpected "declaration or statement"
  return .leaf .statement (← Parser.textSince start.index) start.pos

/-- Take a type declaration, a script method or a script statement. -/
def declaration : Parser (Tree NodeKind) := do
  let start ← get
  let modifiers ← Grammar.groovy.modifiers
  let c ← get
  if Grammar.groovy.atTypeDef c then Grammar.groovy.topTypeDef start modifiers
  else if ← looksLikeMethod (!modifiers.children.isEmpty) then
    let found ← Grammar.groovy.methodOrFields start modifiers none
    match found.getLast? with
    | some method => return method
    | none => Parser.unexpected "method declaration"
  else
    Parser.rewind start.index
    statement

/-- A round of taking a file: take a declaration, or stop at the end of the source. -/
def fileRound (found : List (Tree NodeKind)) :
    Parser (Parser.Step (List (Tree NodeKind)) (List (Tree NodeKind))) := do
  Grammar.groovy.passSeparators
  let t ← Parser.peek
  if t.isEof then return .done found
  else if t.isKeyword "package" then return .next (found ++ [← Grammar.groovy.packageDef])
  else if t.isKeyword "import" then return .next (found ++ [← Grammar.groovy.importDef])
  else return .next (found ++ [← declaration])

/-- Take a whole file. -/
def file : Parser (Tree NodeKind) := do
  let declarations ← Parser.iterate [] fileRound
  return Grammar.groovy.unit declarations

/-- Read a Groovy source into a normalized tree. -/
def parse (source : String) : Except ParseError (Tree NodeKind) := do
  let tokens ← Language.groovy.lexicon.tokenize source
  file.read (Cursor.ofTokens tokens)

end Groovy

end ApiDoc.Syntax
