import ApiDoc.Data.NameMap
import ApiDoc.Doc.Class
import ApiDoc.Doc.Import

/-!
# Looking up types

A name that is used inside a class can mean several qualified names. They are tried in a fixed
order: the name itself, classes nested in the class or in the types around it, classes of its
package, imported classes, and classes of imported packages.
-/

namespace ApiDoc.Lookup

/-- A dotted name and the names of what it stands in, innermost first. -/
def scopes (name : String) : List String :=
  let segments := Text.segments '.' name.toList
  (List.range segments.length).reverse.map fun n =>
    String.ofList (['.'].intercalate (segments.take (n + 1)))

/-- The qualified names that an import of one class gives for a name. -/
def viaSingle (name text : String) : List String :=
  match Import.ofText text with
  | .star _ => []
  | .single path visible =>
    if visible = firstSegment name then [path ++ pastFirstSegment name] else []

/-- The qualified names that an import of all classes gives for a name. -/
def viaStar (name text : String) : List String :=
  match Import.ofText text with
  | .star package => [package ++ "." ++ name]
  | .single _ _ => []

/-- The qualified names that a name can mean inside a class, in the order they are tried. -/
def candidates (owner : ClassDoc) (name : String) : List String :=
  (if name.contains '.' then [name] else [])
    ++ (scopes owner.name).map (fun scope => qualify owner.packagePath (scope ++ "." ++ name))
    ++ [qualify owner.packagePath name]
    ++ owner.imports.flatMap (viaSingle name)
    ++ owner.imports.flatMap (viaStar name)

/-- The class that a name means inside `owner`. -/
def byName (index : NameMap ClassId) (owner : ClassDoc) (name : String) : Option ClassId :=
  if name.isEmpty then none else (candidates owner name).findSome? index.get?

/-- The class that a type reference inside `owner` means. -/
def byRef (index : NameMap ClassId) (owner : ClassDoc) (ref : TypeRef) : Option ClassId :=
  if ref.isBuiltin then none else byName index owner ref.lookupName

end ApiDoc.Lookup
