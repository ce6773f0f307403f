import ApiDoc.Doc.Name
import ApiDoc.Syntax.Grammar.Basic

/-!
# Kinds of files

The last piece of a file's name decides how the file is read. Every name has a kind: what is neither
Java nor a description of a package is taken for Groovy.
-/

namespace ApiDoc

/-- How a file is read. -/
inductive FileKind where
  /-- It declares classes in a language. -/
  | source (language : Syntax.Language)
  /-- It describes its package. -/
  | description
deriving DecidableEq, Repr

namespace FileKind

/-- The name of a file that describes its package. -/
def descriptionName : String := "package.html"

/-- The endings of the names of Java files. -/
def javaEndings : List String := [".java", ".sourcefile"]

/-- The kind of a file; one that is neither Java nor a description is Groovy. -/
def ofName (file : String) : FileKind :=
  let base := baseName file
  if javaEndings.any fun ending => ending.toList.isSuffixOf base.toList then .source .java
  else if base = descriptionName then .description
  else .source .groovy

end FileKind

end ApiDoc
