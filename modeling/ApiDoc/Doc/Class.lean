import ApiDoc.Doc.Comment
import ApiDoc.Doc.Name
import ApiDoc.Doc.TypeRef

/-!
# Class documents

What is documented of a type: its declaration, its members and the types they mention. A document
knows the document around it and those nested in it by name, and every type that it mentions can be
reached at once, to be resolved (`typeRefs`, `mapTypeRefs`).
-/

namespace ApiDoc

/-! ### Visibility -/

/-- Who can see a declaration. -/
inductive Visibility where
  /-- Private: the class itself. -/
  | priv
  /-- The package. -/
  | pkg
  /-- Protected: the package and the subclasses. -/
  | prot
  /-- Public: everyone. -/
  | pub
deriving DecidableEq, Repr

namespace Visibility

/-- The name of a visibility. -/
def name : Visibility → String
  | .priv => "private"
  | .pkg => "package"
  | .prot => "protected"
  | .pub => "public"

/-- The place of a visibility in the order from the least visible to the most. -/
def rank : Visibility → Nat
  | .priv => 0
  | .pkg => 1
  | .prot => 2
  | .pub => 3

instance : LE Visibility := ⟨fun a b => a.rank ≤ b.rank⟩

instance (a b : Visibility) : Decidable (a ≤ b) := inferInstanceAs (Decidable (a.rank ≤ b.rank))

end Visibility

/-! ### Members -/

/-- A field or a property. -/
structure FieldDoc where
  name : String
  type : TypeRef
  visibility : Visibility
  modifiers : List String
  annotations : List String
  comment : DocComment
  initializer : Option String
  line : Nat
deriving DecidableEq, Repr

/-- A parameter. -/
structure ParamDoc where
  name : String
  type : TypeRef
  /-- Does it take any number of arguments? -/
  varargs : Bool
  annotations : List String
  defaultValue : Option String
deriving DecidableEq, Repr

/-- A method, a constructor or an annotation element. -/
structure MethodDoc where
  name : String
  /-- Constructors return nothing. -/
  returnType : Option TypeRef
  typeParameters : List String
  params : List ParamDoc
  throws : List TypeRef
  visibility : Visibility
  modifiers : List String
  annotations : List String
  comment : DocComment
  /-- The default value of an annotation element. -/
  defaultValue : Option String
  line : Nat
deriving DecidableEq, Repr

namespace MethodDoc

/-- The name with the types of the parameters. -/
def signature (m : MethodDoc) : String :=
  m.name ++ "(" ++ ", ".intercalate (m.params.map fun p => p.type.name) ++ ")"

/-- Does the method belong to the class itself? -/
def isStatic (m : MethodDoc) : Bool := m.modifiers.contains "static"

/-- The types that a method mentions: its result, its parameters, and what it throws. -/
def typeRefs (m : MethodDoc) : List TypeRef :=
  m.returnType.toList ++ m.params.map ParamDoc.type ++ m.throws

/-- Change every type that a method mentions. -/
def mapTypeRefs (f : TypeRef → TypeRef) (m : MethodDoc) : MethodDoc :=
  { m with
    returnType := m.returnType.map f
    params := m.params.map fun p => { p with type := f p.type }
    throws := m.throws.map f }

end MethodDoc

/-- A constant of an enum. -/
structure EnumConstantDoc where
  name : String
  comment : DocComment
  arguments : Option String
  line : Nat
deriving DecidableEq, Repr

/-! ### Classes -/

/-- The kinds of type. -/
inductive ClassKind where
  | classType
  | interfaceType
  | enumType
  | traitType
  | annotationType
  /-- A script, documented as a class. -/
  | script
deriving DecidableEq, Repr

/-- The name of a kind of type. -/
def ClassKind.name : ClassKind → String
  | .classType => "class"
  | .interfaceType => "interface"
  | .enumType => "enum"
  | .traitType => "trait"
  | .annotationType => "annotation"
  | .script => "script"

/-- The document of a type. -/
structure ClassDoc where
  /-- The name in the package; a nested type has the name of the type around it in front. -/
  name : String
  packagePath : String
  sourceFile : String := ""
  kind : ClassKind
  visibility : Visibility := .pub
  modifiers : List String := []
  annotations : List String := []
  typeParameters : List String := []
  comment : DocComment := {}
  superclass : Option TypeRef := none
  interfaces : List TypeRef := []
  fields : List FieldDoc := []
  properties : List FieldDoc := []
  constructors : List MethodDoc := []
  methods : List MethodDoc := []
  enumConstants : List EnumConstantDoc := []
  /-- The imports of the file, as written. -/
  imports : List String := []
  /-- The name of the type around a nested type. -/
  outer : Option String := none
  /-- The simple names of the types nested directly inside. -/
  nested : List String := []
  line : Nat := 0
deriving DecidableEq, Repr

namespace ClassDoc

/-- The dotted name, with the package. -/
def qualifiedName (c : ClassDoc) : String := qualify c.packagePath c.name

/-- The dotted name of the package. -/
def packageName (c : ClassDoc) : String := ApiDoc.packageName c.packagePath

/-- The last segment of the name. -/
def simpleName (c : ClassDoc) : String := lastSegment c.name

/-- Is the type marked as deprecated? -/
def isDeprecated (c : ClassDoc) : Bool :=
  c.comment.isDeprecated || c.annotations.contains "Deprecated"

/-- The types that a class mentions: its superclass, its interfaces, the types of its fields and
properties, and what its constructors and methods mention. -/
def typeRefs (c : ClassDoc) : List TypeRef :=
  c.superclass.toList ++ c.interfaces ++ (c.fields ++ c.properties).map FieldDoc.type
    ++ (c.constructors ++ c.methods).flatMap MethodDoc.typeRefs

/-- Change every type that a class mentions. -/
def mapTypeRefs (f : TypeRef → TypeRef) (c : ClassDoc) : ClassDoc :=
  { c with
    superclass := c.superclass.map f
    interfaces := c.interfaces.map f
    fields := c.fields.map fun x => { x with type := f x.type }
    properties := c.properties.map fun x => { x with type := f x.type }
    constructors := c.constructors.map (MethodDoc.mapTypeRefs f)
    methods := c.methods.map (MethodDoc.mapTypeRefs f) }

end ClassDoc

end ApiDoc
