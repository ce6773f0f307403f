import ApiDoc.Doc.Import
import ApiDoc.Doc.Options
import ApiDoc.Syntax.Tree

/-!
# Assembling class documents

The class documents of a file are read off its normalized tree. A declaration without an access
modifier is public; the annotation `PackageScope` keeps it to its package. A field without an access
modifier is a property, save in interfaces and annotation types. The scope options leave out
members; types are always documented.
-/

namespace ApiDoc

open Syntax (NodeKind)

/-! ### Modifiers -/

/-- What the modifiers of a declaration say. -/
structure Declared where
  /-- The last access modifier. -/
  access : Option Visibility := none
  packageScope : Bool := false
  /-- The modifiers that are no access modifiers. -/
  modifiers : List String := []
  annotations : List String := []

namespace Declared

/-- The visibility that an access modifier gives. -/
def accessOf? (word : String) : Option Visibility :=
  if word = "public" then some .pub
  else if word = "protected" then some .prot
  else if word = "private" then some .priv
  else none

/-- Does an annotation keep a declaration to its package? -/
def isPackageScope (name : String) : Bool :=
  name = "PackageScope" || ".PackageScope".toList.isSuffixOf name.toList

/-- Read the modifiers of a declaration. -/
def ofTree (t : Syntax.Tree NodeKind) : Declared :=
  match t.child? .modifiers with
  | none => {}
  | some list =>
    let words := (list.childrenOf .modifier).map Syntax.Tree.text
    let annotations := (list.childrenOf .annotationMark).map Syntax.Tree.text
    { access := (words.filterMap accessOf?).getLast?
      packageScope := annotations.any isPackageScope
      modifiers := words.filter fun w => (accessOf? w).isNone
      annotations }

/-- The visibility of a declaration. -/
def visibility (d : Declared) : Visibility :=
  match d.access with
  | some v => v
  | none => if d.packageScope then .pkg else .pub

/-- Does nothing restrict the access to the declaration, not even in words? -/
def isOpen (d : Declared) : Bool := d.access.isNone && !d.packageScope

end Declared

/-! ### Types -/

/-- The classes that are known without an import, by package. -/
def defaultImports : List (String × List String) :=
  [("java.lang",
     ["Boolean", "Byte", "Character", "Class", "Comparable", "Deprecated", "Double", "Enum",
      "Error", "Exception", "Float", "IllegalArgumentException", "IllegalStateException",
      "Integer", "Iterable", "Long", "Math", "Number", "Object", "Override", "Runnable",
      "RuntimeException", "Short", "String", "StringBuilder", "System", "Thread", "Throwable",
      "Void"]),
   ("groovy.lang",
     ["Binding", "Closure", "GString", "GroovyObject", "MetaClass", "Range", "Script"])]

/-- The qualified name that a type name most likely means: by the imports of the file, as it stands
if it is dotted, or by the default imports. -/
def guessQualified (imports : List String) (name : String) : Option String :=
  match Import.pathOf? imports (firstSegment name) with
  | some path => some (path ++ pastFirstSegment name)
  | none =>
    if name.contains '.' then some name
    else
      (defaultImports.find? fun p => p.2.contains name).map fun p => p.1 ++ "." ++ name

/-- What the documents of a file share. -/
structure FileContext where
  packagePath : String
  /-- The name of the file, without its directory. -/
  file : String
  links : List Link
  options : DocOptions
  imports : List String := []

namespace FileContext

variable (ctx : FileContext)

/-- The reference that a spelled type makes, with the link that covers it. -/
def typeRef (name : String) : TypeRef :=
  let ref : TypeRef := { name }
  if ref.isBuiltin then ref
  else
    match guessQualified ctx.imports ref.lookupName with
    | none => ref
    | some qualified =>
      { ref with external := (ctx.links.find? fun l => l.covers qualified).map Link.href }

/-- The types of a clause. -/
def typeRefs (clause : Option (Syntax.Tree NodeKind)) : List TypeRef :=
  match clause with
  | none => []
  | some clause => (clause.childrenOf .type).map fun t => ctx.typeRef t.text

/-- The type of a declaration; one that has none is declared with `def`. -/
def declaredType (t : Syntax.Tree NodeKind) : TypeRef :=
  match t.child? .type with
  | some type => ctx.typeRef type.text
  | none => { name := "def" }

end FileContext

/-! ### Members -/

/-- The doc comment of a declaration. -/
def commentOf (t : Syntax.Tree NodeKind) : DocComment :=
  match t.doc with
  | some raw => .parse raw
  | none => {}

/-- The text of the expression in a declaration. -/
def expressionOf? (t : Syntax.Tree NodeKind) : Option String :=
  (t.child? .expr).map Syntax.Tree.text

/-- The type parameters of a declaration, as written. -/
def typeParametersOf (t : Syntax.Tree NodeKind) : List String :=
  match t.child? .typeParameters with
  | none => []
  | some list => (list.childrenOf .typeParameter).map Syntax.Tree.text

/-- The document of an enum constant. -/
def enumConstantDoc (t : Syntax.Tree NodeKind) : EnumConstantDoc where
  name := t.text
  comment := commentOf t
  arguments := expressionOf? t
  line := t.pos.line

namespace FileContext

variable (ctx : FileContext)

/-- The document of a field, which is public in an interface. -/
def fieldDoc (inInterface : Bool) (t : Syntax.Tree NodeKind) : FieldDoc :=
  let declared := Declared.ofTree t
  { name := t.text
    type := ctx.declaredType t
    visibility := if inInterface then .pub else declared.visibility
    modifiers := declared.modifiers
    annotations := declared.annotations
    comment := commentOf t
    initializer := expressionOf? t
    line := t.pos.line }

/-- The document of a parameter. -/
def paramDoc (t : Syntax.Tree NodeKind) : ParamDoc where
  name := t.text
  type := ctx.declaredType t
  varargs := t.kind = .variableParameterDef
  annotations := (Declared.ofTree t).annotations
  defaultValue := expressionOf? t

/-- The documents of the parameters of a method. -/
def paramDocs (t : Syntax.Tree NodeKind) : List ParamDoc :=
  match t.child? .parameters with
  | none => []
  | some list =>
    (list.children.filter fun p => p.kind = .parameterDef || p.kind = .variableParameterDef).map
      ctx.paramDoc

/-- The document of a method, a constructor or an annotation element. -/
def methodDoc (t : Syntax.Tree NodeKind) : MethodDoc :=
  let declared := Declared.ofTree t
  { name := t.text
    returnType := if t.kind = .ctorIdent then none else some (ctx.declaredType t)
    typeParameters := typeParametersOf t
    params := ctx.paramDocs t
    throws := ctx.typeRefs (t.child? .throws)
    visibility := declared.visibility
    modifiers := declared.modifiers
    annotations := declared.annotations
    comment := commentOf t
    defaultValue := if t.kind = .annotationFieldDef then expressionOf? t else none
    line := t.pos.line }

end FileContext

/-! ### Types with their members -/

/-- The kind of type that a node declares. -/
def classKindOf : NodeKind → ClassKind
  | .interfaceDef => .interfaceType
  | .enumDef => .enumType
  | .traitDef => .traitType
  | .annotationDef => .annotationType
  | _ => .classType

/-- The members of a type. -/
def membersOf (t : Syntax.Tree NodeKind) : List (Syntax.Tree NodeKind) :=
  match t.child? .objBlock with
  | none => []
  | some body => body.children

/-- The name of a type that is declared inside `outer`. -/
def nestedName (outer : Option String) (name : String) : String :=
  match outer with
  | none => name
  | some outer => outer ++ "." ++ name

namespace FileContext

variable (ctx : FileContext)

/-- The superclass and the interfaces of a type, given the types it extends and implements. -/
def supertypes (kind : ClassKind) (extended implemented : List TypeRef) :
    Option TypeRef × List TypeRef :=
  match kind with
  | .classType => (some (extended.headD (ctx.typeRef "Object")), implemented)
  | .enumType => (some (ctx.typeRef "Enum"), implemented)
  | _ => (none, extended ++ implemented)

/-- The document of a type that is declared inside `outer`. -/
def classDoc (outer : Option String) (t : Syntax.Tree NodeKind) : ClassDoc :=
  let kind := classKindOf t.kind
  let declared := Declared.ofTree t
  let (superclass, interfaces) :=
    ctx.supertypes kind (ctx.typeRefs (t.child? .extendsClause))
      (ctx.typeRefs (t.child? .implementsClause))
  let inInterface : Bool := kind = .interfaceType || kind = .annotationType
  let members := membersOf t
  let declaredFields := members.filter fun m => m.kind = .variableDef
  let isProperty := fun (m : Syntax.Tree NodeKind) => !inInterface && (Declared.ofTree m).isOpen
  let documented := fun (docs : List FieldDoc) =>
    docs.filter fun d => ctx.options.includes d.visibility
  let documentedMethods := fun (docs : List MethodDoc) =>
    docs.filter fun d => ctx.options.includes d.visibility
  { name := nestedName outer t.text
    packagePath := ctx.packagePath
    sourceFile := ctx.file
    kind
    visibility := declared.visibility
    modifiers := declared.modifiers
    annotations := declared.annotations
    typeParameters := typeParametersOf t
    comment := commentOf t
    superclass
    interfaces
    fields := documented
      ((declaredFields.filter fun m => !isProperty m).map (ctx.fieldDoc inInterface))
    properties := documented ((declaredFields.filter isProperty).map (ctx.fieldDoc inInterface))
    constructors := documentedMethods
      ((members.filter fun m => m.kind = .ctorIdent).map ctx.methodDoc)
    methods := documentedMethods
      ((members.filter fun m => m.kind = .methodDef || m.kind = .annotationFieldDef).map
        ctx.methodDoc)
    enumConstants := (members.filter fun m => m.kind = .enumConstantDef).map enumConstantDoc
    imports := ctx.imports
    outer
    nested := (members.filter fun m => m.kind.isTypeDef).map Syntax.Tree.text
    line := t.pos.line }

mutual

/-- The documents of a type and of the types inside it, the inner ones first. -/
def classDocs (outer : Option String) : Syntax.Tree NodeKind → List ClassDoc
  | ⟨kind, text, pos, doc, children⟩ =>
    bodyDocs (nestedName outer text) children
      ++ [ctx.classDoc outer ⟨kind, text, pos, doc, children⟩]

/-- The documents of the types in the first body of a list of children. -/
def bodyDocs (outer : String) : List (Syntax.Tree NodeKind) → List ClassDoc
  | [] => []
  | ⟨kind, _, _, _, children⟩ :: ts =>
    if kind = .objBlock then memberDocs (some outer) children else bodyDocs outer ts

/-- The documents of the types in a list of declarations. -/
def memberDocs (outer : Option String) : List (Syntax.Tree NodeKind) → List ClassDoc
  | [] => []
  | t :: ts => (if t.kind.isTypeDef then classDocs outer t else []) ++ memberDocs outer ts

end

/-! ### Scripts -/

/-- A method that every script has. -/
def generatedMethod (name returnType : String) (params : List ParamDoc) (modifiers : List String) :
    MethodDoc where
  name
  returnType := some (ctx.typeRef returnType)
  typeParameters := []
  params
  throws := []
  visibility := .pub
  modifiers
  annotations := []
  comment := {}
  defaultValue := none
  line := 0

/-- The methods that every script has. -/
def generatedMethods : List MethodDoc :=
  let args : ParamDoc :=
    { name := "args", type := ctx.typeRef "String[]", varargs := false, annotations := [],
      defaultValue := none }
  [ctx.generatedMethod "main" "void" [args] ["static"], ctx.generatedMethod "run" "Object" [] []]

/-- The document of a script: its methods, under the name of the file up to the first dot. -/
def scriptDoc (declarations : List (Syntax.Tree NodeKind)) : ClassDoc where
  name := firstSegment ctx.file
  packagePath := ctx.packagePath
  sourceFile := ctx.file
  kind := .script
  superclass := some (ctx.typeRef "Script")
  methods :=
    ((declarations.filter fun d => d.kind = .methodDef).map ctx.methodDoc).filter
        (fun d => ctx.options.includes d.visibility)
      ++ (if ctx.options.includeMainForScripts then ctx.generatedMethods else [])
  imports := ctx.imports
  line := 1

/-! ### Files -/

/-- Do the declarations of a file make it a script? -/
def isScript (declarations : List (Syntax.Tree NodeKind)) : Bool :=
  declarations.any fun d => d.kind = .statement || d.kind = .methodDef

/-- The class documents of a file, by their names in the package. The class of a script gives way to
a declared one of the same name. -/
def assemble (tree : Syntax.Tree NodeKind) : NameMap ClassDoc :=
  let ctx := { ctx with imports := (tree.childrenOf .importDef).map Syntax.Tree.text }
  let declared := NameMap.ofList
    ((ctx.memberDocs none tree.children).map fun doc => (doc.name, doc))
  if isScript tree.children && ctx.options.processScripts then
    let script := ctx.scriptDoc tree.children
    if declared.contains script.name then declared else declared.insert script.name script
  else declared

end FileContext

end ApiDoc
