import ApiDoc.Syntax.Access
import ApiDoc.Syntax.Groovy
import ApiDoc.Syntax.Java
import ApiDoc.Syntax.TagTable

/-!
# Reading a source file

A Groovy file is read into a normalized tree at once. A Java file is read into its own vocabulary,
carried over to the normalized one, and given its access the way Groovy spells it.
-/

namespace ApiDoc.Syntax

/-- Read a Java source into a normalized tree, by a given tag table. -/
def Java.parseNormalized (table : TagTable) (source : String) :
    Except ParseError (Tree NodeKind) := do
  let tree ← Java.parse source
  let tree ← table.normalize tree
  tree.withGroovyAccess

/-- Read a source of a language into a normalized tree. -/
def Language.parse : Language → String → Except ParseError (Tree NodeKind)
  | java, source => Java.parseNormalized .java source
  | groovy, source => Groovy.parse source

end ApiDoc.Syntax
