import ApiDoc.Text.Blank
import ApiDoc.Text.Segments

/-!
# Type references

A type as a declaration spells it. It names a class of the run once it is resolved, and may carry a
link to documentation elsewhere. What is looked up is not the spelling but `lookupName`, which is
cut out of it.
-/

namespace ApiDoc

/-- The number of a class in the root document. -/
structure ClassId where
  index : Nat
deriving DecidableEq, Repr

/-- A class number as text. -/
def ClassId.render (id : ClassId) : String := "class_" ++ id.index.repr

/-- A reference to a type. -/
structure TypeRef where
  /-- The type as written. -/
  name : String
  /-- The class that the name turned out to mean. -/
  resolved : Option ClassId := none
  /-- Where the type is documented, if it is not part of the run. -/
  external : Option String := none
deriving DecidableEq, Repr

namespace TypeRef

/-- Drop every `...` from the end. -/
def cutDots (cs : List Char) : List Char :=
  (dropTriples cs.reverse).reverse
where
  /-- Drop leading dots, three at a time. -/
  dropTriples : List Char → List Char
    | '.' :: '.' :: '.' :: rest => dropTriples rest
    | rest => rest

/-- The name to look up: the spelling up to its type arguments or array dimensions, without the dots
of a variable parameter. -/
def lookupName (t : TypeRef) : String :=
  let name := (Text.trim t.name.toList).takeWhile fun c => c ≠ '<' && c ≠ '['
  String.ofList (Text.trim (cutDots name))

/-- The names that never mean a class: the primitive types, `void`, and `def` for no type. -/
def builtins : List String :=
  ["def", "void", "boolean", "byte", "char", "short", "int", "long", "float", "double"]

/-- Does the reference name a type that is no class? -/
def isBuiltin (t : TypeRef) : Bool := builtins.contains t.lookupName

end TypeRef

end ApiDoc
