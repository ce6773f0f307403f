import ApiDoc.Syntax.Grammar.Member

/-!
# Type declarations

Classes, interfaces, enums, annotation types and traits with their bodies. Bodies nest: each
function here takes the reader of the bodies inside, and `body` ties the knot, one level of nesting
at a time. What a body is read in may be any monad that runs parsers: `body` reads it in parsers
themselves, and a reader that counts the bodies around the cursor has the same declarations.
-/

namespace ApiDoc.Syntax.Grammar

variable {κ : Type} (g : Grammar κ) {m : Type → Type} [Monad m] [MonadParser m]

/-- A reader of bodies, given the name of the class whose constructors may stand there and whether
enum constants come first. -/
abbrev BodyReader (m : Type → Type) (κ : Type) :=
  (className : String) → (isEnum : Bool) → m (Tree κ)

/-- A parser of bodies. -/
abbrev BodyParser (κ : Type) := BodyReader Parser κ

/-- Does a type declaration stand at the cursor? -/
def atTypeDef (c : Cursor) : Bool :=
  g.language.typeWords.any c.token.isKeyword ||
    (c.token.isPunct '@' && (c.peek 1).isKeyword "interface")

/-- Take the keyword of a type declaration, and return the kind of type and whether it is an
enum. -/
def typeKeyword : Parser (κ × Bool) := do
  if ← Parser.eatPunct '@' then
    let _ ← Parser.expectKeyword "interface"
    return (g.kind .annotationDef, false)
  else
    let t ← Parser.bump
    return (g.typeKind t.text, t.text = "enum")

/-- Take a clause of types if its keyword is there, and the line ends behind it. -/
def clause (kind : JavaKind) (keyword : String) : Parser (List (Tree κ)) := do
  if ← Parser.atKeyword keyword then
    let types ← g.typeList kind keyword
    g.passLines
    return [types]
  else return []

/-- Take a type declaration behind its modifiers; `start` is where the declaration starts. -/
def typeDef (inside : BodyReader m κ) (start : Cursor) (modifiers : Tree κ) : m (Tree κ) := do
  let (kind, isEnum) ← g.typeKeyword
  let name ← g.name
  let parameters ← if ← Parser.atPunct '<' then pure [← g.typeParameters] else pure []
  g.passLines
  let extended ← g.clause .extendsClause "extends"
  let implemented ← g.clause .implementsClause "implements"
  let body ← inside name isEnum
  return { kind, text := name, pos := start.pos, doc := start.doc,
           children := [modifiers] ++ parameters ++ extended ++ implemented ++ [body] }

/-! ### Enum constants -/

/-- A round of taking annotations: take one, with the line ends behind it. -/
def annotationsRound (found : List (Tree κ)) :
    Parser (Parser.Step (List (Tree κ)) (List (Tree κ))) := do
  if ← Parser.atPunct '@' then
    let a ← g.annotationMark
    g.passLines
    return .next (found ++ [a])
  else return .done found

/-- Take annotations. -/
def annotations : Parser (List (Tree κ)) := Parser.iterate [] g.annotationsRound

/-- Take an enum constant: its annotations, name, arguments and body. -/
def enumConstant (inside : BodyReader m κ) : m (Tree κ) := do
  let start ← Parser.cursor
  let annotations ← g.annotations
  let name ← g.name
  let arguments ← if ← Parser.atPunct '(' then pure [← g.parenthesized] else pure []
  let body ← if ← Parser.atPunct '{' then pure [← inside "" false] else pure []
  return { kind := g.kind .enumConstantDef, text := name, pos := start.pos, doc := start.doc,
           children := annotations ++ arguments ++ body }

/-- Take what ends the enum constants: a semicolon, which may be missing in Groovy, and in Java
before the end of the body. -/
def endOfConstants : Parser Unit := do
  match g.language with
  | .groovy =>
    let _ ← Parser.eatPunct ';'
  | .java =>
    if ← Parser.atPunct '}' then return
    let _ ← Parser.expectPunct ';'

/-- A round of taking enum constants: take one and what follows it, or the end of the list. -/
def constantsRound (inside : BodyReader m κ) (found : List (Tree κ)) :
    m (Parser.Step (List (Tree κ)) (List (Tree κ))) := do
  g.passLines
  if ← Parser.atPunct '}' then return .done found
  if ← Parser.eatPunct ';' then return .done found
  let constant ← g.enumConstant inside
  g.passLines
  let found := found ++ [constant]
  if ← Parser.eatPunct ',' then return .next found
  g.endOfConstants
  return .done found

/-- Take the constants of an enum. -/
def enumConstants (inside : BodyReader m κ) : m (List (Tree κ)) :=
  MonadParser.iterate [] (g.constantsRound inside)

/-! ### Bodies -/

/-- Take a member of the class `className`. A declaration of several fields gives several nodes. -/
def member (inside : BodyReader m κ) (className : String) : m (List (Tree κ)) := do
  let start ← Parser.cursor
  if start.token.isPunct '{' then return [← g.initializer .instanceInit start.pos]
  if start.token.isKeyword "static" && (g.peek start 1).isPunct '{' then
    let _ ← Parser.bump
    g.passLines
    return [← g.initializer .staticInit start.pos]
  let modifiers ← g.modifiers
  if g.atTypeDef (← Parser.cursor) then return [← g.typeDef inside start modifiers]
  g.methodOrFields start modifiers (some className)

/-- A round of taking the members of a body: take one, or the bracket that ends the body. -/
def membersRound (inside : BodyReader m κ) (className : String) (found : List (Tree κ)) :
    m (Parser.Step (List (Tree κ)) (List (Tree κ))) := do
  g.passSeparators
  if ← Parser.eatPunct '}' then return .done found
  if (← Parser.peek).isEof then Parser.unexpected "'\x7d'"
  let more ← g.member inside className
  return .next (found ++ more)

/-- Take the body of a type, with `inside` for the bodies in it. -/
def members (inside : BodyReader m κ) : BodyReader m κ := fun className isEnum => do
  let start ← Parser.expectPunct '{'
  let constants ← if isEnum then g.enumConstants inside else pure []
  let found ← MonadParser.iterate constants (g.membersRound inside className)
  return (g.leaf .objBlock "" start.pos).withChildren found

/-- Take the body of a type, with at most `levels` bodies inside each other. -/
def body : (levels : Nat) → BodyParser κ
  | 0 => fun _ _ => do throw ⟨← Parser.pos, .nestedTooDeep⟩
  | levels + 1 => g.members (body levels)

/-- Take a type declaration at the top of a file. -/
def topTypeDef (start : Cursor) (modifiers : Tree κ) : Parser (Tree κ) :=
  g.typeDef (g.body maxNesting) start modifiers

/-! ### Package and imports -/

/-- Take a package clause. -/
def packageDef : Parser (Tree κ) := do
  let word ← Parser.expectKeyword "package"
  let name ← Parser.qualifiedName g.soft
  g.endOfDeclaration
  return g.leaf .packageDef name word.pos

/-- Take another name for an imported class, which only Groovy has. -/
def importAlias (name : String) : Parser String := do
  match g.language with
  | .java => return name
  | .groovy =>
    if ← Parser.eatKeyword "as" then return name ++ " as " ++ (← g.name) else return name

/-- Take what may follow the name of an import: a star for all its members, or another name for the
class. Returns the whole import as written. -/
def importRest (name : String) : Parser String := do
  if ← Parser.eatPunct '.' then
    let _ ← Parser.expectPunct '*'
    return name ++ ".*"
  else g.importAlias name

/-- Take an import. -/
def importDef : Parser (Tree κ) := do
  let word ← Parser.expectKeyword "import"
  let kind := if ← Parser.eatKeyword "static" then .staticImport else .importDef
  let name ← g.importRest (← Parser.qualifiedName g.soft)
  g.endOfDeclaration
  return g.leaf kind name word.pos

/-- The tree of a file with the given declarations. -/
def unit (declarations : List (Tree κ)) : Tree κ :=
  (g.leaf .compilationUnit "" .start).withChildren declarations

end ApiDoc.Syntax.Grammar
