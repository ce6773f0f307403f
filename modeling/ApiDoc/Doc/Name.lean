import ApiDoc.Text.Blank
import ApiDoc.Text.Segments

/-!
# Names of packages, classes and files

A package is known by its path, with slashes between its segments; its dotted name, and the
qualified names of its classes, are derived from the path. The name of a source file decides which
package its classes belong to and how the file is read.
-/

namespace ApiDoc

open Text (segments)

/-! ### Packages and classes -/

/-- The dotted name of the package at a path. -/
def packageName (path : String) : String :=
  let isSlash := fun (c : Char) => c = '/'
  let inner := Text.cutEnd isSlash (Text.cutStart isSlash path.toList)
  String.ofList (inner.map fun c => if c = '/' then '.' else c)

/-- The qualified name of a class in the package at a path. A class of the default package keeps its
bare name. -/
def qualify (path className : String) : String :=
  let package := packageName path
  if package.isEmpty then className else package ++ "." ++ className

/-- The last segment of a dotted name. -/
def lastSegment (name : String) : String :=
  String.ofList (((segments '.' name.toList).getLast?).getD [])

/-- The first segment of a dotted name. -/
def firstSegment (name : String) : String :=
  String.ofList (name.toList.takeWhile (· ≠ '.'))

/-- What follows the first segment of a dotted name, with the dot. -/
def pastFirstSegment (name : String) : String :=
  String.ofList (name.toList.dropWhile (· ≠ '.'))

/-! ### Files -/

/-- The pieces of a file name between slashes of either kind. -/
def pathSegments (file : String) : List (List Char) :=
  segments '/' (file.toList.map fun c => if c = '\\' then '/' else c)

/-- The last piece of a file name. -/
def baseName (file : String) : String :=
  String.ofList (((pathSegments file).getLast?).getD [])

/-- The path of the package that the classes of a file belong to: its directory. Empty pieces and
single dots are left out. -/
def packagePathOf (file : String) : String :=
  let directories := (pathSegments file).dropLast.filter fun s => !s.isEmpty && s ≠ ['.']
  String.ofList (['/'].intercalate directories)

end ApiDoc
