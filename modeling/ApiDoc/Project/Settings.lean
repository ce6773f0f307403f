import ApiDoc.Doc.Options
import ApiDoc.Doc.Root
import ApiDoc.Project.SourcePath

/-!
# Settings

What a run is configured with. Each field has the value that holds where neither a settings file nor
the command line says otherwise. The two policies say what becomes of files of one name, before they
are read, and of classes of one name, when they are documented.
-/

namespace ApiDoc

/-- Which of the files of one name are read. -/
inductive SearchPolicy where
  /-- The first one. -/
  | firstMatch
  /-- All of them, in the order of the source path. -/
  | lastMatch
  /-- None, if there are several; that is reported. -/
  | error
deriving DecidableEq, Repr

namespace SearchPolicy

/-- All policies. -/
def all : List SearchPolicy := [.firstMatch, .lastMatch, .error]

/-- The name of a policy. -/
def name : SearchPolicy → String
  | .firstMatch => "first-match"
  | .lastMatch => "last-match"
  | .error => "error"

/-- The policy with a name. -/
def ofName? (name : String) : Option SearchPolicy := all.find? fun p => p.name = name

end SearchPolicy

namespace CollisionPolicy

/-- All policies. -/
def all : List CollisionPolicy := [.overwrite, .report, .keepFirst]

/-- The policy with a name. -/
def ofName? (name : String) : Option CollisionPolicy := all.find? fun p => p.name = name

end CollisionPolicy

/-- The settings of a run. -/
structure Settings where
  sourcePath : SourcePath := ["."]
  searchPolicy : SearchPolicy := .firstMatch
  collisionPolicy : CollisionPolicy := .overwrite
  properties : Properties := {}
  links : List Link := []
deriving DecidableEq

end ApiDoc
