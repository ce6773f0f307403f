import ApiDoc.Proofs.Bracket.Balanced
import ApiDoc.Proofs.Source.Word

/-!
# Java declarations as they are written

Abstract Java files. Every token that a file spells has its own spot, so a file comes with its
layout: positions, gaps, and doc comments in front of any token. The functions `words` spell a
construct, and `tree` gives the node it is read into. Expressions, bodies and the arguments of
annotations are balanced runs of words; nothing more is said about them.
-/

namespace ApiDoc.Syntax.Source

open Text (Position)

/-- A node without a doc comment. -/
def node (kind : JavaKind) (text : String) (s : Spot) (children : List (Tree JavaKind)) :
    Tree JavaKind :=
  { kind, text, pos := s.pos, children }

/-- The node of a declaration that starts at a spot. -/
def declared (kind : JavaKind) (text : String) (start : Spot) (children : List (Tree JavaKind)) :
    Tree JavaKind :=
  { kind, text, pos := start.pos, doc := start.doc, children }

/-- Words as they read in the source. -/
def joined (ws : List Word) : String := Token.joined (ws.map Word.token)

/-! ## Lists -/

/-- Items between separators. -/
structure Separated (α : Type) where
  first : α
  more : List (Spot × α)

namespace Separated

variable {α : Type}

def items (s : Separated α) : List α := s.first :: s.more.map Prod.snd

/-- The items behind the first one, each behind its separator. -/
def wordsOf (f : α → List Word) (separator : Char) (more : List (Spot × α)) : List Word :=
  more.flatMap fun m => m.1.punct separator :: f m.2

def words (f : α → List Word) (separator : Char) (s : Separated α) : List Word :=
  f s.first ++ wordsOf f separator s.more

@[simp] theorem wordsOf_nil {f : α → List Word} {c : Char} : wordsOf f c [] = [] := rfl

@[simp] theorem wordsOf_cons {f : α → List Word} {c : Char} {s : Spot} {a : α}
    {more : List (Spot × α)} :
    wordsOf f c ((s, a) :: more) = s.punct c :: (f a ++ wordsOf f c more) := rfl

end Separated

/-! ## Balanced runs -/

/-- A balanced run between brackets. -/
structure Group (b : Bracket) where
  opening : Spot
  inside : List Word
  closing : Spot
  balanced : Balanced Word.token (fun _ => True) inside

/-- An expression: a balanced run without comma or semicolon outside brackets. -/
structure Expression where
  words : List Word
  balanced : Balanced Word.token
    (fun w => w.token.isPunct ',' = false ∧ w.token.isPunct ';' = false) words

namespace Group

variable {b : Bracket}

def words (g : Group b) : List Word :=
  g.opening.punct b.opening :: (g.inside ++ [g.closing.punct b.closing])

/-- A body is not read. -/
def body (g : Group .curly) : Tree JavaKind := node .slist "" g.opening []

/-- Arguments are the text between the parentheses, without the blanks around it. -/
def arguments (g : Group .round) : Tree JavaKind :=
  node .expr (Text.trimmed (joined g.inside)) g.opening []

end Group

/-- An expression is its text; `next` is the spot behind it. -/
def Expression.tree (x : Expression) (next : Spot) : Tree JavaKind :=
  node .expr (joined x.words) (firstSpot next x.words) []

/-! ## Names and types -/

structure Name where
  text : String
  spot : Spot

def Name.word (n : Name) : Word := n.spot.ident n.text

/-- A dotted name. -/
abbrev QualifiedName := Separated Name

namespace QualifiedName

def words (q : QualifiedName) : List Word := Separated.words (fun n => [n.word]) '.' q

def text (q : QualifiedName) : String := ".".intercalate (q.items.map Name.text)

end QualifiedName

/-- May the word stand in type arguments, angle brackets apart? -/
def Word.IsArgumentPart (w : Word) : Prop :=
  w.kind = .ident ∨ w.kind = .keyword ∨
    w.kind = .punct ∧ w.text ∈ [",", ".", "?", "&", "[", "]", "@"]

/-- Angle brackets match in the words, and all others may stand in type arguments. -/
inductive Angled : List Word → Prop
  | nil : Angled []
  | word {w : Word} {ws : List Word} (hw : w.IsArgumentPart) (hws : Angled ws) : Angled (w :: ws)
  | group {o c : Spot} {inside ws : List Word} (hinside : Angled inside) (hws : Angled ws) :
      Angled (o.punct '<' :: (inside ++ c.punct '>' :: ws))

/-- Type arguments. -/
structure Arguments where
  opening : Spot
  inside : List Word
  closing : Spot
  angled : Angled inside

def Arguments.words (a : Arguments) : List Word :=
  a.opening.punct '<' :: (a.inside ++ [a.closing.punct '>'])

/-- A segment of the name of a class, which may have type arguments. -/
structure Segment where
  name : Name
  arguments : Option Arguments

def Segment.words (s : Segment) : List Word := s.name.word :: s.arguments.elim [] Arguments.words

/-- A pair of square brackets. -/
structure Dimension where
  opening : Spot
  closing : Spot

def Dimension.words (d : Dimension) : List Word := [d.opening.punct '[', d.closing.punct ']']

/-- Dimensions behind a name. -/
def dimensionTrees : List Dimension → List (Tree JavaKind)
  | [] => []
  | d :: dims => [node .arrayDeclarator (String.join ((d :: dims).map fun _ => "[]")) d.opening []]

inductive TypeName where
  | primitive (spot : Spot) (word : String) (hword : word ∈ primitives)
  | named (segments : Separated Segment)

namespace TypeName

def words : TypeName → List Word
  | primitive spot word _ => [spot.keyword word]
  | named segments => segments.words Segment.words '.'

end TypeName

/-- A type where it is used. -/
structure TypeUse where
  name : TypeName
  dims : List Dimension

namespace TypeUse

def words (t : TypeUse) : List Word := t.name.words ++ t.dims.flatMap Dimension.words

/-- Where the type starts. -/
def spot (t : TypeUse) : Spot :=
  match t.name with
  | .primitive spot _ _ => spot
  | .named segments => segments.first.name.spot

def tree (t : TypeUse) : Tree JavaKind := node .type (joined t.words) t.spot []

end TypeUse

/-- A clause of types behind a keyword. -/
structure Clause where
  keyword : Spot
  types : Separated TypeUse

namespace Clause

def words (word : String) (c : Clause) : List Word :=
  c.keyword.keyword word :: c.types.words TypeUse.words ','

def tree (kind : JavaKind) (c : Clause) : Tree JavaKind :=
  node kind "" c.keyword (c.types.items.map TypeUse.tree)

end Clause

/-! ## Type parameters -/

/-- The bounds of a type parameter. -/
structure Bounds where
  keyword : Spot
  types : Separated TypeUse

def Bounds.words (b : Bounds) : List Word :=
  b.keyword.keyword "extends" :: b.types.words TypeUse.words '&'

structure TypeParameter where
  name : Name
  bounds : Option Bounds

namespace TypeParameter

def words (p : TypeParameter) : List Word := p.name.word :: p.bounds.elim [] Bounds.words

def tree (p : TypeParameter) : Tree JavaKind := node .typeParameter (joined p.words) p.name.spot []

end TypeParameter

structure TypeParameters where
  opening : Spot
  parameters : Separated TypeParameter
  closing : Spot

namespace TypeParameters

def words (p : TypeParameters) : List Word :=
  p.opening.punct '<' :: (p.parameters.words TypeParameter.words ',' ++ [p.closing.punct '>'])

def tree (p : TypeParameters) : Tree JavaKind :=
  node .typeParameters "" p.opening (p.parameters.items.map TypeParameter.tree)

end TypeParameters

/-! ## Modifiers -/

structure Annotation where
  sign : Spot
  name : QualifiedName
  arguments : Option (Group .round)

namespace Annotation

def words (a : Annotation) : List Word :=
  a.sign.punct '@' :: (a.name.words ++ a.arguments.elim [] Group.words)

def tree (a : Annotation) : Tree JavaKind :=
  node .annotationMark a.name.text a.sign (a.arguments.toList.map Group.arguments)

end Annotation

inductive Modifier where
  | word (spot : Spot) (word : String) (hword : word ∈ Language.java.modifierWords)
  | mark (a : Annotation)

namespace Modifier

def words : Modifier → List Word
  | word spot text _ => [spot.keyword text]
  | mark a => a.words

def tree : Modifier → Tree JavaKind
  | word spot text _ => node .modifier text spot []
  | mark a => a.tree

end Modifier

/-- The words of modifiers. -/
def modifierWordsOf (ms : List Modifier) : List Word := ms.flatMap Modifier.words

/-- The list of modifiers of a declaration that starts at a spot. -/
def modifierTree (start : Spot) (ms : List Modifier) : Tree JavaKind :=
  node .modifiers "" start (ms.map Modifier.tree)

/-! ## Parameters -/

structure Parameter where
  modifiers : List Modifier
  type : TypeUse
  ellipsis : Option Spot
  name : Name
  dims : List Dimension

namespace Parameter

def words (p : Parameter) : List Word :=
  modifierWordsOf p.modifiers ++ (p.type.words ++ (p.ellipsis.elim [] (fun s => [s.ellipsis]) ++
    p.name.word :: p.dims.flatMap Dimension.words))

def spot (p : Parameter) : Spot := firstSpot p.type.spot (modifierWordsOf p.modifiers)

def tree (p : Parameter) : Tree JavaKind :=
  node (if p.ellipsis.isSome then .variableParameterDef else .parameterDef) p.name.text p.spot
    ([modifierTree p.spot p.modifiers, p.type.tree] ++ dimensionTrees p.dims)

end Parameter

structure Parameters where
  opening : Spot
  parameters : Option (Separated Parameter)
  closing : Spot

namespace Parameters

def words (p : Parameters) : List Word :=
  p.opening.punct '(' ::
    (p.parameters.elim [] (Separated.words Parameter.words ',') ++ [p.closing.punct ')'])

def tree (p : Parameters) : Tree JavaKind :=
  node .parameters "" p.opening ((p.parameters.elim [] Separated.items).map Parameter.tree)

end Parameters

/-! ## Members without a body of members -/

/-- How a method ends. -/
inductive MethodEnd where
  | body (block : Group .curly)
  | value (keyword : Spot) (value : Expression) (semicolon : Spot)
  | semicolon (spot : Spot)

namespace MethodEnd

def words : MethodEnd → List Word
  | body block => block.words
  | value keyword x finish => keyword.keyword "default" :: (x.words ++ [finish.punct ';'])
  | semicolon spot => [spot.punct ';']

def trees : MethodEnd → List (Tree JavaKind)
  | body block => [block.body]
  | value _ x finish => [x.tree finish]
  | semicolon _ => []

/-- A default value makes a method an annotation element. -/
def kind (kind : JavaKind) : MethodEnd → JavaKind
  | value _ _ _ => .annotationFieldDef
  | _ => kind

end MethodEnd

/-- What follows the name of a method. -/
structure MethodRest where
  parameters : Parameters
  dims : List Dimension
  throws : Option Clause
  ending : MethodEnd

namespace MethodRest

def words (r : MethodRest) : List Word :=
  r.parameters.words ++ (r.dims.flatMap Dimension.words ++
    (r.throws.elim [] (Clause.words "throws") ++ r.ending.words))

def trees (r : MethodRest) : List (Tree JavaKind) :=
  [r.parameters.tree] ++ dimensionTrees r.dims ++ r.throws.toList.map (Clause.tree .throws) ++
    r.ending.trees

end MethodRest

/-- A field of a declaration, which may have others. -/
structure Declarator where
  name : Name
  dims : List Dimension
  value : Option (Spot × Expression)

namespace Declarator

/-- What follows the name. -/
def rest (d : Declarator) : List Word :=
  d.dims.flatMap Dimension.words ++ d.value.elim [] fun v => v.1.punct '=' :: v.2.words

def words (d : Declarator) : List Word := d.name.word :: d.rest

/-- The node of a field at a position; `next` is the spot behind it. -/
def tree (doc : Option String) (modifiers type : Tree JavaKind) (pos : Position) (d : Declarator)
    (next : Spot) : Tree JavaKind :=
  { kind := .variableDef, text := d.name.text, pos, doc,
    children := [modifiers, type] ++ dimensionTrees d.dims ++
      d.value.toList.map fun v => v.2.tree next }

/-- The nodes of fields that share modifiers, type and doc comment. All but the first stand at their
names. -/
def trees (doc : Option String) (modifiers type : Tree JavaKind) (semicolon : Spot) :
    (pos : Position) → Declarator → List (Spot × Declarator) → List (Tree JavaKind)
  | pos, d, [] => [d.tree doc modifiers type pos semicolon]
  | pos, d, (comma, d') :: more =>
    d.tree doc modifiers type pos comma ::
      trees doc modifiers type semicolon d'.name.spot.pos d' more

end Declarator

/-- A member that is no type. -/
inductive PlainMember where
  | initializer (keyword : Option Spot) (block : Group .curly)
  | fields (modifiers : List Modifier) (type : TypeUse) (declarators : Separated Declarator)
      (semicolon : Spot)
  | method (modifiers : List Modifier) (parameters : Option TypeParameters) (type : TypeUse)
      (name : Name) (rest : MethodRest)
  /-- A constructor has the name of its class. -/
  | constructor (modifiers : List Modifier) (parameters : Option TypeParameters) (name : Spot)
      (rest : MethodRest)

namespace PlainMember

def words (className : String) : PlainMember → List Word
  | initializer keyword block => keyword.elim [] (fun s => [s.keyword "static"]) ++ block.words
  | fields modifiers type declarators semicolon =>
    modifierWordsOf modifiers ++ (type.words ++
      (declarators.words Declarator.words ',' ++ [semicolon.punct ';']))
  | method modifiers parameters type name rest =>
    modifierWordsOf modifiers ++ (parameters.elim [] TypeParameters.words ++
      (type.words ++ name.word :: rest.words))
  | constructor modifiers parameters name rest =>
    modifierWordsOf modifiers ++ (parameters.elim [] TypeParameters.words ++
      name.ident className :: rest.words)

/-- Where the member starts. -/
def spot : PlainMember → Spot
  | initializer keyword block => keyword.getD block.opening
  | fields modifiers type _ _ => firstSpot type.spot (modifierWordsOf modifiers)
  | method modifiers parameters type _ _ =>
    firstSpot ((parameters.map TypeParameters.opening).getD type.spot) (modifierWordsOf modifiers)
  | constructor modifiers parameters name _ =>
    firstSpot ((parameters.map TypeParameters.opening).getD name) (modifierWordsOf modifiers)

def trees (className : String) (m : PlainMember) : List (Tree JavaKind) :=
  match m with
  | initializer keyword block =>
    [node (if keyword.isSome then .staticInit else .instanceInit) "" m.spot [block.body]]
  | fields modifiers type declarators semicolon =>
    Declarator.trees m.spot.doc (modifierTree m.spot modifiers) type.tree semicolon m.spot.pos
      declarators.first declarators.more
  | method modifiers parameters type name rest =>
    [declared (rest.ending.kind .methodDef) name.text m.spot
      ([modifierTree m.spot modifiers] ++ parameters.toList.map TypeParameters.tree ++
        [type.tree] ++ rest.trees)]
  | constructor modifiers parameters _ rest =>
    [declared (rest.ending.kind .ctorDef) className m.spot
      ([modifierTree m.spot modifiers] ++ parameters.toList.map TypeParameters.tree ++ rest.trees)]

end PlainMember

/-! ## Types and their members -/

/-- The words that declare a type. -/
inductive TypeKeyword where
  | class (spot : Spot)
  | interface (spot : Spot)
  | enum (spot : Spot)
  | annotationType (sign keyword : Spot)

namespace TypeKeyword

def words : TypeKeyword → List Word
  | .class spot => [spot.keyword "class"]
  | interface spot => [spot.keyword "interface"]
  | enum spot => [spot.keyword "enum"]
  | annotationType sign keyword => [sign.punct '@', keyword.keyword "interface"]

def spot : TypeKeyword → Spot
  | .class spot => spot
  | interface spot => spot
  | enum spot => spot
  | annotationType sign _ => sign

def kind : TypeKeyword → JavaKind
  | .class _ => .classDef
  | interface _ => .interfaceDef
  | enum _ => .enumDef
  | annotationType _ _ => .annotationDef

def isEnum : TypeKeyword → Bool
  | enum _ => true
  | _ => false

end TypeKeyword

/-- What a type has in front of its body. -/
structure TypeHead where
  modifiers : List Modifier
  keyword : TypeKeyword
  name : Name
  parameters : Option TypeParameters
  extended : Option Clause
  implemented : Option Clause

namespace TypeHead

/-- The words behind the modifiers. -/
def rest (h : TypeHead) : List Word :=
  h.keyword.words ++ h.name.word :: (h.parameters.elim [] TypeParameters.words ++
    (h.extended.elim [] (Clause.words "extends") ++
      h.implemented.elim [] (Clause.words "implements")))

def words (h : TypeHead) : List Word := modifierWordsOf h.modifiers ++ h.rest

def spot (h : TypeHead) : Spot := firstSpot h.keyword.spot (modifierWordsOf h.modifiers)

/-- The node of the type, given that of its body. -/
def tree (h : TypeHead) (body : Tree JavaKind) : Tree JavaKind :=
  declared h.keyword.kind h.name.text h.spot
    ([modifierTree h.spot h.modifiers] ++ h.parameters.toList.map TypeParameters.tree ++
      h.extended.toList.map (Clause.tree .extendsClause) ++
      h.implemented.toList.map (Clause.tree .implementsClause) ++ [body])

end TypeHead

/-- What an enum constant has in front of its body. -/
structure ConstantHead where
  annotations : List Annotation
  name : Name
  arguments : Option (Group .round)

namespace ConstantHead

def words (h : ConstantHead) : List Word :=
  h.annotations.flatMap Annotation.words ++ h.name.word :: h.arguments.elim [] Group.words

def spot (h : ConstantHead) : Spot :=
  firstSpot h.name.spot (h.annotations.flatMap Annotation.words)

/-- The node of the constant, given that of its body. -/
def tree (h : ConstantHead) (body : List (Tree JavaKind)) : Tree JavaKind :=
  declared .enumConstantDef h.name.text h.spot
    (h.annotations.map Annotation.tree ++ h.arguments.toList.map Group.arguments ++ body)

end ConstantHead

mutual

/-- A type declaration. The members of an enum come behind its constants and a semicolon. -/
inductive TypeDecl where
  | type (head : TypeHead) (hhead : head.keyword.isEnum = false) (opening : Spot)
      (members : Members) (closing : Spot)
  | enum (head : TypeHead) (hhead : head.keyword.isEnum = true) (opening : Spot)
      (constants : Constants) (closing : Spot)
  | enumWithMembers (head : TypeHead) (hhead : head.keyword.isEnum = true) (opening : Spot)
      (constants : Constants) (semicolon : Spot) (members : Members) (closing : Spot)

/-- The members of a body, with semicolons among them. -/
inductive Members where
  | nil
  | semicolon (spot : Spot) (more : Members)
  | plain (member : PlainMember) (more : Members)
  | type (t : TypeDecl) (more : Members)

inductive Constant where
  | plain (head : ConstantHead)
  | withBody (head : ConstantHead) (opening : Spot) (members : Members) (closing : Spot)

/-- The constants of an enum between commas, where one more comma may come behind the last. -/
inductive Constants where
  | nil
  | last (constant : Constant)
  | cons (constant : Constant) (comma : Spot) (more : Constants)

end

/-- What a type has in front of its body. -/
def TypeDecl.head : TypeDecl → TypeHead
  | .type head .. | .enum head .. | .enumWithMembers head .. => head

mutual

/-- The body of a type. -/
def TypeDecl.body : TypeDecl → List Word
  | .type head _ opening members closing =>
    opening.punct '{' :: (members.words head.name.text ++ [closing.punct '}'])
  | .enum _ _ opening constants closing =>
    opening.punct '{' :: (constants.words ++ [closing.punct '}'])
  | .enumWithMembers head _ opening constants semicolon members closing =>
    opening.punct '{' :: (constants.words ++ semicolon.punct ';' ::
      (members.words head.name.text ++ [closing.punct '}']))

def Members.words (className : String) : Members → List Word
  | .nil => []
  | .semicolon spot more => spot.punct ';' :: more.words className
  | .plain member more => member.words className ++ more.words className
  | .type t more => (t.head.words ++ t.body) ++ more.words className

/-- In the body of a constant, the class has no name. -/
def Constant.words : Constant → List Word
  | .plain head => head.words
  | .withBody head opening members closing =>
    head.words ++ opening.punct '{' :: (members.words "" ++ [closing.punct '}'])

def Constants.words : Constants → List Word
  | .nil => []
  | .last constant => constant.words
  | .cons constant comma more => constant.words ++ comma.punct ',' :: more.words

end

def TypeDecl.words (t : TypeDecl) : List Word := t.head.words ++ t.body

mutual

/-- The node of the body of a type. -/
def TypeDecl.block : TypeDecl → Tree JavaKind
  | .type head _ opening members _ => node .objBlock "" opening (members.trees head.name.text)
  | .enum _ _ opening constants _ => node .objBlock "" opening constants.trees
  | .enumWithMembers head _ opening constants _ members _ =>
    node .objBlock "" opening (constants.trees ++ members.trees head.name.text)

def Members.trees (className : String) : Members → List (Tree JavaKind)
  | .nil => []
  | .semicolon _ more => more.trees className
  | .plain member more => member.trees className ++ more.trees className
  | .type t more => t.head.tree t.block :: more.trees className

def Constant.tree : Constant → Tree JavaKind
  | .plain head => head.tree []
  | .withBody head opening members _ =>
    head.tree [node .objBlock "" opening (members.trees "")]

def Constants.trees : Constants → List (Tree JavaKind)
  | .nil => []
  | .last constant => [constant.tree]
  | .cons constant _ more => constant.tree :: more.trees

end

def TypeDecl.tree (t : TypeDecl) : Tree JavaKind := t.head.tree t.block

mutual

/-- How deep bodies nest in a type, its own body included. -/
def TypeDecl.depth : TypeDecl → Nat
  | .type _ _ _ members _ => members.depth + 1
  | .enum _ _ _ constants _ => constants.depth + 1
  | .enumWithMembers _ _ _ constants _ members _ => max constants.depth members.depth + 1

def Members.depth : Members → Nat
  | .nil => 0
  | .semicolon _ more => more.depth
  | .plain _ more => more.depth
  | .type t more => max t.depth more.depth

def Constant.depth : Constant → Nat
  | .plain _ => 0
  | .withBody _ _ members _ => members.depth + 1

def Constants.depth : Constants → Nat
  | .nil => 0
  | .last constant => constant.depth
  | .cons constant _ more => max constant.depth more.depth

end

/-! ## Files -/

/-- What stands at the top of a file. -/
inductive TopLevel where
  /-- Modifiers in front of a package clause are not read. -/
  | package (modifiers : List Modifier) (keyword : Spot) (name : QualifiedName) (semicolon : Spot)
  | import (keyword : Spot) (static : Option Spot) (name : QualifiedName)
      (star : Option (Spot × Spot)) (semicolon : Spot)
  | type (t : TypeDecl)
  | semicolon (spot : Spot)

namespace TopLevel

def words : TopLevel → List Word
  | package modifiers keyword name finish =>
    modifierWordsOf modifiers ++ keyword.keyword "package" :: (name.words ++ [finish.punct ';'])
  | .import keyword static name star finish =>
    keyword.keyword "import" :: (static.elim [] (fun s => [s.keyword "static"]) ++ (name.words ++
      (star.elim [] (fun s => [s.1.punct '.', s.2.punct '*']) ++ [finish.punct ';'])))
  | type t => t.words
  | semicolon spot => [spot.punct ';']

def trees : TopLevel → List (Tree JavaKind)
  | package _ keyword name _ => [node .packageDef name.text keyword []]
  | .import keyword static name star _ =>
    [node (if static.isSome then .staticImport else .importDef)
      (if star.isSome then name.text ++ ".*" else name.text) keyword []]
  | type t => [t.tree]
  | semicolon _ => []

def depth : TopLevel → Nat
  | type t => t.depth
  | _ => 0

end TopLevel

/-- A Java file. -/
structure File where
  declarations : List TopLevel
  ending : Spot

namespace File

def words (f : File) : List Word := f.declarations.flatMap TopLevel.words

/-- The tokens that spell a file, up to the end of the source. -/
def tokens (f : File) : List Token :=
  f.words.flatMap Word.tokens ++ f.ending.comments.map Comment.token ++ [f.ending.ending]

def tree (f : File) : Tree JavaKind :=
  { kind := .compilationUnit, text := "", pos := .start,
    children := f.declarations.flatMap TopLevel.trees }

/-- Do bodies nest at most `levels` deep? -/
def NestsWithin (levels : Nat) (f : File) : Prop := ∀ d ∈ f.declarations, d.depth ≤ levels

instance (levels : Nat) (f : File) : Decidable (f.NestsWithin levels) :=
  inferInstanceAs (Decidable (∀ d ∈ f.declarations, d.depth ≤ levels))

end File

end ApiDoc.Syntax.Source
