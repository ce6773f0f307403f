/-!
# Kinds of syntax node

Two vocabularies name the nodes of a syntax tree. `NodeKind` is the normalized one, which every
class document is assembled from; `JavaKind` is what the Java grammar builds its trees in. They
agree but for constructors, traits and script statements.
-/

namespace ApiDoc.Syntax

/-- A vocabulary: its kinds in order, each with a tag. -/
class Vocabulary (κ : Type) where
  all : List κ
  tag : κ → String

/-- The kind with a given tag. -/
def Vocabulary.ofTag? {κ : Type} [Vocabulary κ] (tag : String) : Option κ :=
  (Vocabulary.all : List κ).find? fun k => Vocabulary.tag k = tag

/-- The normalized vocabulary. -/
inductive NodeKind where
  | compilationUnit
  | packageDef
  | importDef
  | staticImport
  | classDef
  | interfaceDef
  | enumDef
  | traitDef
  | annotationDef
  | modifiers
  | modifier
  | annotationMark
  | typeParameters
  | typeParameter
  | extendsClause
  | implementsClause
  /-- The body of a type. -/
  | objBlock
  | variableDef
  | methodDef
  /-- A constructor. -/
  | ctorIdent
  | annotationFieldDef
  | enumConstantDef
  | parameters
  | parameterDef
  /-- A parameter that takes any number of arguments. -/
  | variableParameterDef
  | type
  /-- Array dimensions behind a name. -/
  | arrayDeclarator
  | throws
  /-- A body of statements, left unread. -/
  | slist
  | staticInit
  | instanceInit
  /-- An expression, left unread. -/
  | expr
  /-- A statement of a script, left unread. -/
  | statement
deriving DecidableEq, Repr

namespace NodeKind

/-- Every kind, in the order of the vocabulary. -/
def all : List NodeKind :=
  [.compilationUnit, .packageDef, .importDef, .staticImport, .classDef, .interfaceDef, .enumDef,
   .traitDef, .annotationDef, .modifiers, .modifier, .annotationMark, .typeParameters,
   .typeParameter, .extendsClause, .implementsClause, .objBlock, .variableDef, .methodDef,
   .ctorIdent, .annotationFieldDef, .enumConstantDef, .parameters, .parameterDef,
   .variableParameterDef, .type, .arrayDeclarator, .throws, .slist, .staticInit, .instanceInit,
   .expr, .statement]

/-- The tag of a kind, as trees show it. -/
def tag : NodeKind → String
  | .compilationUnit => "COMPILATION_UNIT"
  | .packageDef => "PACKAGE_DEF"
  | .importDef => "IMPORT"
  | .staticImport => "STATIC_IMPORT"
  | .classDef => "CLASS_DEF"
  | .interfaceDef => "INTERFACE_DEF"
  | .enumDef => "ENUM_DEF"
  | .traitDef => "TRAIT_DEF"
  | .annotationDef => "ANNOTATION_DEF"
  | .modifiers => "MODIFIERS"
  | .modifier => "MODIFIER"
  | .annotationMark => "ANNOTATION"
  | .typeParameters => "TYPE_PARAMETERS"
  | .typeParameter => "TYPE_PARAMETER"
  | .extendsClause => "EXTENDS_CLAUSE"
  | .implementsClause => "IMPLEMENTS_CLAUSE"
  | .objBlock => "OBJBLOCK"
  | .variableDef => "VARIABLE_DEF"
  | .methodDef => "METHOD_DEF"
  | .ctorIdent => "CTOR_IDENT"
  | .annotationFieldDef => "ANNOTATION_FIELD_DEF"
  | .enumConstantDef => "ENUM_CONSTANT_DEF"
  | .parameters => "PARAMETERS"
  | .parameterDef => "PARAMETER_DEF"
  | .variableParameterDef => "VARIABLE_PARAMETER_DEF"
  | .type => "TYPE"
  | .arrayDeclarator => "ARRAY_DECLARATOR"
  | .throws => "LITERAL_throws"
  | .slist => "SLIST"
  | .staticInit => "STATIC_INIT"
  | .instanceInit => "INSTANCE_INIT"
  | .expr => "EXPR"
  | .statement => "STATEMENT"

/-- The name of a kind. -/
def name : NodeKind → String
  | .compilationUnit => "CompilationUnit"
  | .packageDef => "PackageDef"
  | .importDef => "Import"
  | .staticImport => "StaticImport"
  | .classDef => "ClassDef"
  | .interfaceDef => "InterfaceDef"
  | .enumDef => "EnumDef"
  | .traitDef => "TraitDef"
  | .annotationDef => "AnnotationDef"
  | .modifiers => "Modifiers"
  | .modifier => "Modifier"
  | .annotationMark => "Annotation"
  | .typeParameters => "TypeParameters"
  | .typeParameter => "TypeParameter"
  | .extendsClause => "ExtendsClause"
  | .implementsClause => "ImplementsClause"
  | .objBlock => "ObjBlock"
  | .variableDef => "VariableDef"
  | .methodDef => "MethodDef"
  | .ctorIdent => "CtorIdent"
  | .annotationFieldDef => "AnnotationFieldDef"
  | .enumConstantDef => "EnumConstantDef"
  | .parameters => "Parameters"
  | .parameterDef => "ParameterDef"
  | .variableParameterDef => "VariableParameterDef"
  | .type => "Type"
  | .arrayDeclarator => "ArrayDeclarator"
  | .throws => "Throws"
  | .slist => "Slist"
  | .staticInit => "StaticInit"
  | .instanceInit => "InstanceInit"
  | .expr => "Expr"
  | .statement => "Statement"

/-- Does the kind declare a type? -/
def isTypeDef : NodeKind → Bool
  | .classDef | .interfaceDef | .enumDef | .traitDef | .annotationDef => true
  | _ => false

end NodeKind

instance : Vocabulary NodeKind := ⟨NodeKind.all, NodeKind.tag⟩

/-- The vocabulary of the Java grammar. -/
inductive JavaKind where
  | compilationUnit
  | packageDef
  | importDef
  | staticImport
  | classDef
  | interfaceDef
  | enumDef
  | annotationDef
  | modifiers
  | modifier
  | annotationMark
  | typeParameters
  | typeParameter
  | extendsClause
  | implementsClause
  /-- The body of a type. -/
  | objBlock
  | variableDef
  | methodDef
  /-- A constructor. -/
  | ctorDef
  | annotationFieldDef
  | enumConstantDef
  | parameters
  | parameterDef
  /-- A parameter that takes any number of arguments. -/
  | variableParameterDef
  | type
  /-- Array dimensions behind a name. -/
  | arrayDeclarator
  | throws
  /-- A body of statements, left unread. -/
  | slist
  | staticInit
  | instanceInit
  /-- An expression, left unread. -/
  | expr
deriving DecidableEq, Repr

namespace JavaKind

/-- Every kind, in the order of the vocabulary. -/
def all : List JavaKind :=
  [.compilationUnit, .packageDef, .importDef, .staticImport, .classDef, .interfaceDef, .enumDef,
   .annotationDef, .modifiers, .modifier, .annotationMark, .typeParameters, .typeParameter,
   .extendsClause, .implementsClause, .objBlock, .variableDef, .methodDef, .ctorDef,
   .annotationFieldDef, .enumConstantDef, .parameters, .parameterDef, .variableParameterDef,
   .type, .arrayDeclarator, .throws, .slist, .staticInit, .instanceInit, .expr]

/-- The tag of a kind, as trees show it. -/
def tag : JavaKind → String
  | .compilationUnit => "COMPILATION_UNIT"
  | .packageDef => "PACKAGE_DEF"
  | .importDef => "IMPORT"
  | .staticImport => "STATIC_IMPORT"
  | .classDef => "CLASS_DEF"
  | .interfaceDef => "INTERFACE_DEF"
  | .enumDef => "ENUM_DEF"
  | .annotationDef => "ANNOTATION_DEF"
  | .modifiers => "MODIFIERS"
  | .modifier => "MODIFIER"
  | .annotationMark => "ANNOTATION"
  | .typeParameters => "TYPE_PARAMETERS"
  | .typeParameter => "TYPE_PARAMETER"
  | .extendsClause => "EXTENDS_CLAUSE"
  | .implementsClause => "IMPLEMENTS_CLAUSE"
  | .objBlock => "OBJBLOCK"
  | .variableDef => "VARIABLE_DEF"
  | .methodDef => "METHOD_DEF"
  | .ctorDef => "CTOR_DEF"
  | .annotationFieldDef => "ANNOTATION_FIELD_DEF"
  | .enumConstantDef => "ENUM_CONSTANT_DEF"
  | .parameters => "PARAMETERS"
  | .parameterDef => "PARAMETER_DEF"
  | .variableParameterDef => "VARIABLE_PARAMETER_DEF"
  | .type => "TYPE"
  | .arrayDeclarator => "ARRAY_DECLARATOR"
  | .throws => "LITERAL_throws"
  | .slist => "SLIST"
  | .staticInit => "STATIC_INIT"
  | .instanceInit => "INSTANCE_INIT"
  | .expr => "EXPR"

/-- The name of a kind. -/
def name : JavaKind → String
  | .compilationUnit => "CompilationUnit"
  | .packageDef => "PackageDef"
  | .importDef => "Import"
  | .staticImport => "StaticImport"
  | .classDef => "ClassDef"
  | .interfaceDef => "InterfaceDef"
  | .enumDef => "EnumDef"
  | .annotationDef => "AnnotationDef"
  | .modifiers => "Modifiers"
  | .modifier => "Modifier"
  | .annotationMark => "Annotation"
  | .typeParameters => "TypeParameters"
  | .typeParameter => "TypeParameter"
  | .extendsClause => "ExtendsClause"
  | .implementsClause => "ImplementsClause"
  | .objBlock => "ObjBlock"
  | .variableDef => "VariableDef"
  | .methodDef => "MethodDef"
  | .ctorDef => "CtorDef"
  | .annotationFieldDef => "AnnotationFieldDef"
  | .enumConstantDef => "EnumConstantDef"
  | .parameters => "Parameters"
  | .parameterDef => "ParameterDef"
  | .variableParameterDef => "VariableParameterDef"
  | .type => "Type"
  | .arrayDeclarator => "ArrayDeclarator"
  | .throws => "Throws"
  | .slist => "Slist"
  | .staticInit => "StaticInit"
  | .instanceInit => "InstanceInit"
  | .expr => "Expr"

/-- The normalized counterpart of a kind. -/
def normalized : JavaKind → NodeKind
  | .compilationUnit => .compilationUnit
  | .packageDef => .packageDef
  | .importDef => .importDef
  | .staticImport => .staticImport
  | .classDef => .classDef
  | .interfaceDef => .interfaceDef
  | .enumDef => .enumDef
  | .annotationDef => .annotationDef
  | .modifiers => .modifiers
  | .modifier => .modifier
  | .annotationMark => .annotationMark
  | .typeParameters => .typeParameters
  | .typeParameter => .typeParameter
  | .extendsClause => .extendsClause
  | .implementsClause => .implementsClause
  | .objBlock => .objBlock
  | .variableDef => .variableDef
  | .methodDef => .methodDef
  | .ctorDef => .ctorIdent
  | .annotationFieldDef => .annotationFieldDef
  | .enumConstantDef => .enumConstantDef
  | .parameters => .parameters
  | .parameterDef => .parameterDef
  | .variableParameterDef => .variableParameterDef
  | .type => .type
  | .arrayDeclarator => .arrayDeclarator
  | .throws => .throws
  | .slist => .slist
  | .staticInit => .staticInit
  | .instanceInit => .instanceInit
  | .expr => .expr

end JavaKind

instance : Vocabulary JavaKind := ⟨JavaKind.all, JavaKind.tag⟩

end ApiDoc.Syntax
