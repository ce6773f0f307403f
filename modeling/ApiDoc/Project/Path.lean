import ApiDoc.Project.FileKind

/-!
# Paths

A path is a text with slashes between its pieces. Empty pieces and single dots stand for no step.
-/

namespace ApiDoc.Path

/-- The pieces of a path. -/
def pieces (path : String) : List String :=
  (Text.segments '/' path.toList).map String.ofList

/-- A name below a directory. An absolute name stands for itself. -/
def join (directory name : String) : String :=
  if name.toList.head? = some '/' || directory.isEmpty then name
  else if directory.toList.getLast? = some '/' then directory ++ name
  else directory ++ "/" ++ name

/-- The last step of a path, unless it leads upwards. -/
def fileName? (path : String) : Option String :=
  match ((pieces path).filter fun p => !p.isEmpty && p ≠ ".").getLast? with
  | some name => if name = ".." then none else some name
  | none => none

/-- What stands behind the last dot of a name. A dot at the start does not count. -/
def extensionOf? (name : String) : Option String :=
  match (Text.segments '.' name.toList).reverse with
  | last :: before :: earlier =>
    if before.isEmpty && earlier.isEmpty then none else some (String.ofList last)
  | _ => none

/-- The extensions of the files that are looked for. -/
def documentedExtensions : List String := ["groovy", "gvy", "gy", "gsh", "java"]

/-- Is the file at a path one of those that are looked for? -/
def isDocumentable (path : String) : Bool :=
  match fileName? path with
  | none => false
  | some name =>
    name = FileKind.descriptionName
      || (extensionOf? name).any fun e => documentedExtensions.contains e

end ApiDoc.Path
