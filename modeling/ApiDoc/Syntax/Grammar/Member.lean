import ApiDoc.Syntax.Grammar.Basic

/-!
# Members

Fields, methods, constructors and initializers. A member may be a type of its own, whose body is
read by a parser that is passed in.
-/

namespace ApiDoc.Syntax.Grammar

open Text (Position)

variable {κ : Type} (g : Grammar κ)

/-! ### Declared types and dimensions -/

/-- Take the type of a declaration. Groovy allows `def` for it, and allows to leave it out before a
name that `follows` can follow. -/
def declaredType (follows : Token → Bool) : Parser (Tree κ) := do
  match g.language with
  | .java => g.typeNode
  | .groovy =>
    let c ← get
    if ← Parser.eatKeyword "def" then return g.leaf .type "def" c.pos
    else if g.isName c.token && follows (c.peek 1) then return g.leaf .type "def" c.pos
    else g.typeNode

/-- Can the token follow the name of a member that is declared without a type? -/
def followsMember (t : Token) : Bool :=
  t.isPunct '=' || t.isPunct ',' || t.isPunct ';' || t.isPunct '}' || t.isPunct '(' ||
    t.isNewline || t.isEof

/-- Can the token follow the name of a parameter that is declared without a type? -/
def followsParameter (t : Token) : Bool :=
  t.isPunct ',' || t.isPunct ')' || t.isPunct '=' || t.isNewline

/-- Take the array dimensions behind a name, which only Java has. -/
def nameDimensions : Parser (List (Tree κ)) := do
  match g.language with
  | .java =>
    let p ← Parser.pos
    let dims ← Parser.dimensions
    return if dims.isEmpty then [] else [g.leaf .arrayDeclarator dims p]
  | .groovy => return []

/-! ### Parameters -/

/-- Take the default value of a parameter, which only Groovy has. -/
def defaultValue : Parser (List (Tree κ)) := do
  match g.language with
  | .java => return []
  | .groovy =>
    if ← Parser.eatPunct '=' then
      let c ← get
      Parser.skipUntil fun c => c.token.isPunct ',' || c.token.isPunct ')'
      return [g.leaf .expr (← Parser.textSince c.index) c.pos]
    else return []

/-- Take a parameter. -/
def parameter : Parser (Tree κ) := do
  let p ← Parser.pos
  let modifiers ← g.modifiers
  let type ← g.declaredType followsParameter
  let variadic ← Parser.eatIf (·.kind = .ellipsis)
  let name ← g.name
  let dims ← g.nameDimensions
  let value ← g.defaultValue
  let kind := if variadic then .variableParameterDef else .parameterDef
  return (g.leaf kind name p).withChildren ([modifiers, type] ++ dims ++ value)

/-- A round of taking parameters: take one and what follows it, or the end of the list. Groovy
allows a comma behind the last one. -/
def parametersRound (found : List (Tree κ)) :
    Parser (Parser.Step (List (Tree κ)) (List (Tree κ))) := do
  g.passLines
  if ← Parser.eatIf fun t => t.isPunct ')' && (found.isEmpty || g.language = .groovy) then
    return .done found
  let found := found ++ [← g.parameter]
  g.passLines
  if ← Parser.eatPunct ',' then return .next found
  let _ ← Parser.expectPunct ')'
  return .done found

/-- Take a list of parameters. -/
def parameters : Parser (Tree κ) := do
  let start ← Parser.expectPunct '('
  let found ← Parser.iterate [] g.parametersRound
  return (g.leaf .parameters "" start.pos).withChildren found

/-! ### Methods -/

/-- Take the thrown types of a method, if there are any. -/
def throwsClause : Parser (List (Tree κ)) := do
  if (g.peek (← get) 0).isKeyword "throws" then
    g.passLines
    return [← g.typeList .throws "throws"]
  else return []

/-- Pass over the line ends before a body or a default value. -/
def passToMethodEnd : Parser Unit := do
  let next := g.peek (← get) 0
  if next.isKeyword "default" || next.isPunct '{' then g.passLines

/-- Take what ends a method or constructor whose children so far are `found`: a body or the default
value of an annotation element. A default value makes the declaration an annotation element,
whatever `kind` it was. -/
def methodEnd (kind : JavaKind) (found : List (Tree κ)) :
    Parser (JavaKind × List (Tree κ)) := do
  if ← Parser.eatKeyword "default" then
    let value ← g.expression false
    g.endOfDeclaration
    return (.annotationFieldDef, found ++ [value])
  if ← Parser.atPunct '{' then return (kind, found ++ [← g.block])
  g.endOfDeclaration
  return (kind, found)

/-- Take what follows the name of a method or constructor: parameters, thrown types, and what ends
it. -/
def methodRest (kind : JavaKind) : Parser (JavaKind × List (Tree κ)) := do
  let parameters ← g.parameters
  let dims ← g.nameDimensions
  let throws ← g.throwsClause
  g.passToMethodEnd
  g.methodEnd kind ([parameters] ++ dims ++ throws)

/-- Take the rest of a method or constructor whose first children are `head`. -/
def method (kind : JavaKind) (name : String) (start : Cursor) (head : List (Tree κ)) :
    Parser (Tree κ) := do
  let (kind, rest) ← g.methodRest kind
  return { kind := g.kind kind, text := name, pos := start.pos, doc := start.doc,
           children := head ++ rest }

/-! ### Fields -/

/-- Take the initial value of a field. -/
def initialValue : Parser (List (Tree κ)) := do
  if ← Parser.eatPunct '=' then return [← g.expression true] else return []

/-- A round of taking fields: take the rest of a field whose `name` is taken, and the next name. The
fields share their modifiers, type and doc comment; all but the first have a position of their
own. -/
def fieldsRound (start : Cursor) (modifiers type : Tree κ) :
    List (Tree κ) × String × Position →
      Parser (Parser.Step (List (Tree κ) × String × Position) (List (Tree κ)))
  | (found, name, p) => do
    let dims ← g.nameDimensions
    let value ← g.initialValue
    let field : Tree κ :=
      { kind := g.kind .variableDef, text := name, pos := p, doc := start.doc,
        children := [modifiers, type] ++ dims ++ value }
    let found := found ++ [field]
    if ← Parser.eatPunct ',' then
      g.passLines
      let p ← Parser.pos
      return .next (found, ← g.name, p)
    else return .done found

/-- Take the fields of a declaration whose first name, `first`, is already taken. -/
def fields (first : String) (start : Cursor) (modifiers type : Tree κ) :
    Parser (List (Tree κ)) := do
  let found ← Parser.iterate ([], first, start.pos) (g.fieldsRound start modifiers type)
  g.endOfDeclaration
  return found

/-! ### Any member -/

/-- Does a constructor of the class stand at the cursor? -/
def atConstructor (className : Option String) (c : Cursor) : Bool :=
  match className with
  | none => false
  | some name => c.token.kind = .ident && c.token.text = name && (c.peek 1).isPunct '('

/-- Take the quoted name of a Groovy method, if one stands at the cursor. -/
def quotedName? : Parser (Option String) := do
  let c ← get
  if g.language = .groovy && c.token.kind = .stringLit && (c.peek 1).isPunct '(' then
    let t ← Parser.bump
    return some (unquoted t.text)
  else return none
where
  /-- A text without the quotes at its ends. -/
  unquoted (text : String) : String :=
    let isQuote := fun (c : Char) => c = '"' || c = '\''
    String.ofList (Text.cutEnd isQuote (Text.cutStart isQuote text.toList))

/-- Take a method, constructor or field declaration behind its modifiers; `start` is where the
declaration starts, and `className` is the class whose constructors may stand here. -/
def methodOrFields (start : Cursor) (modifiers : Tree κ) (className : Option String) :
    Parser (List (Tree κ)) := do
  let typeParameters ← if ← Parser.atPunct '<' then pure [← g.typeParameters] else pure []
  if atConstructor className (← get) then
    let name ← Parser.bump
    return [← g.method .ctorDef name.text start ([modifiers] ++ typeParameters)]
  let type ← g.declaredType followsMember
  let head := [modifiers] ++ typeParameters ++ [type]
  if let some name ← g.quotedName? then
    return [← g.method .methodDef name start head]
  let name ← g.name
  if ← Parser.atPunct '(' then return [← g.method .methodDef name start head]
  match typeParameters with
  | parameters :: _ => throw ⟨parameters.pos, .typeParametersOnField⟩
  | [] => g.fields name start modifiers type

/-- Take an initializer block. -/
def initializer (kind : JavaKind) (p : Position) : Parser (Tree κ) := do
  return (g.leaf kind "" p).withChildren [← g.block]

end ApiDoc.Syntax.Grammar
