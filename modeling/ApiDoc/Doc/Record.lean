import ApiDoc.Doc.Root
import ApiDoc.Json.Basic

/-!
# Documents as JSON

Each document is an object with its fields in the order of its declaration. A field that need not be
there is left out where it has no value.
-/

namespace ApiDoc

/-! ### Comments and types -/

/-- A tag of a comment as JSON. -/
def DocTag.toJson (t : DocTag) : Json :=
  .obj ([("name", .str t.name)] ++ Json.optional "argument" .str t.argument
    ++ [("text", .str t.text)])

/-- A comment as JSON. -/
def DocComment.toJson (c : DocComment) : Json :=
  .obj [("description", .str c.description), ("first_sentence", .str c.firstSentence),
    ("tags", .arr (c.tags.map DocTag.toJson))]

/-- The number of a class as JSON. -/
def ClassId.toJson (id : ClassId) : Json := .nat id.index

/-- A type reference as JSON. -/
def TypeRef.toJson (t : TypeRef) : Json :=
  .obj ([("name", .str t.name)] ++ Json.optional "resolved" ClassId.toJson t.resolved
    ++ Json.optional "external" .str t.external)

/-! ### Members -/

/-- A field or a property as JSON. -/
def FieldDoc.toJson (f : FieldDoc) : Json :=
  .obj ([("name", .str f.name), ("type", f.type.toJson), ("visibility", .str f.visibility.name),
      ("modifiers", .strings f.modifiers), ("annotations", .strings f.annotations),
      ("comment", f.comment.toJson)]
    ++ Json.optional "initializer" .str f.initializer ++ [("line", .nat f.line)])

/-- A parameter as JSON. -/
def ParamDoc.toJson (p : ParamDoc) : Json :=
  .obj ([("name", .str p.name), ("type", p.type.toJson), ("varargs", .bool p.varargs),
      ("annotations", .strings p.annotations)]
    ++ Json.optional "default_value" .str p.defaultValue)

/-- A method or a constructor as JSON. -/
def MethodDoc.toJson (m : MethodDoc) : Json :=
  .obj ([("name", .str m.name)] ++ Json.optional "return_type" TypeRef.toJson m.returnType
    ++ [("type_parameters", .strings m.typeParameters),
      ("params", .arr (m.params.map ParamDoc.toJson)),
      ("throws", .arr (m.throws.map TypeRef.toJson)), ("visibility", .str m.visibility.name),
      ("modifiers", .strings m.modifiers), ("annotations", .strings m.annotations),
      ("comment", m.comment.toJson)]
    ++ Json.optional "default_value" .str m.defaultValue ++ [("line", .nat m.line)])

/-- A constant of an enum as JSON. -/
def EnumConstantDoc.toJson (c : EnumConstantDoc) : Json :=
  .obj ([("name", .str c.name), ("comment", c.comment.toJson)]
    ++ Json.optional "arguments" .str c.arguments ++ [("line", .nat c.line)])

/-! ### Classes and packages -/

/-- A class as JSON. -/
def ClassDoc.toJson (c : ClassDoc) : Json :=
  .obj ([("name", .str c.name), ("package_path", .str c.packagePath),
      ("source_file", .str c.sourceFile), ("kind", .str c.kind.name),
      ("visibility", .str c.visibility.name), ("modifiers", .strings c.modifiers),
      ("annotations", .strings c.annotations), ("type_parameters", .strings c.typeParameters),
      ("comment", c.comment.toJson)]
    ++ Json.optional "superclass" TypeRef.toJson c.superclass
    ++ [("interfaces", .arr (c.interfaces.map TypeRef.toJson)),
      ("fields", .arr (c.fields.map FieldDoc.toJson)),
      ("properties", .arr (c.properties.map FieldDoc.toJson)),
      ("constructors", .arr (c.constructors.map MethodDoc.toJson)),
      ("methods", .arr (c.methods.map MethodDoc.toJson)),
      ("enum_constants", .arr (c.enumConstants.map EnumConstantDoc.toJson)),
      ("imports", .strings c.imports)]
    ++ Json.optional "outer" .str c.outer
    ++ [("nested", .strings c.nested), ("line", .nat c.line)])

/-- A package as JSON. -/
def PackageDoc.toJson (p : PackageDoc) : Json :=
  .obj [("name", .str p.path), ("description", .str p.description),
    ("classes", .obj (p.classes.map ClassId.toJson).entries)]

/-- A diagnostic as JSON. -/
def Diagnostic.toJson (d : Diagnostic) : Json :=
  .obj [("file", .str d.file), ("category", .str d.category.label), ("message", .str d.message)]

/-- A summary of the type references as JSON. -/
def Summary.toJson (s : Summary) : Json :=
  .obj [("resolved", .nat s.resolved), ("unresolved", .nat s.unresolved)]

end ApiDoc
