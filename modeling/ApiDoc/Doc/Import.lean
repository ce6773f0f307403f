import ApiDoc.Doc.Name

/-!
# Imports

An import makes a class, or all classes of a package, known by a shorter name. Trees and documents
keep imports as they are written, and they are read here when a name is looked up.
-/

namespace ApiDoc

/-- An import. -/
inductive Import where
  /-- All classes of a package. -/
  | star (package : String)
  /-- One class, and the name that it is known by. -/
  | single (path visible : String)
deriving DecidableEq, Repr

namespace Import

/-- Read an import as it is written in a file. A class that is given no other name is known by the
last segment of its own. -/
def ofText (text : String) : Import :=
  match Text.beforeEnd? ['.', '*'] text.toList with
  | some package => .star (String.ofList package)
  | none =>
    match Text.cutAt? [' ', 'a', 's', ' '] text.toList with
    | some (path, other) =>
      .single (String.ofList (Text.trim path)) (String.ofList (Text.trim other))
    | none =>
      let path := String.ofList (Text.trim text.toList)
      .single path (lastSegment path)

/-- The path of the first class that the imports make known by a name. -/
def pathOf? (imports : List String) (name : String) : Option String :=
  imports.findSome? fun text =>
    match ofText text with
    | .star _ => none
    | .single path visible => if visible = name then some path else none

end Import

end ApiDoc
