import ApiDoc.Doc.Assembly
import ApiDoc.Markup.Body
import ApiDoc.Project.RunError
import ApiDoc.Project.Settings
import ApiDoc.Syntax.Reading
import ApiDoc.Text.Utf8

/-!
# Building the root document

Files are read one after the other into a root document. A file that cannot be read leaves the root
as it is and is reported. The package of a file is its directory, whatever the file itself says.
-/

namespace ApiDoc

/-- A root document in the making. -/
structure Build where
  settings : Settings
  root : Root := { policy := settings.collisionPolicy }
  diagnostics : List Diagnostic := []

/-- What became of a file. -/
inductive FileOutcome where
  /-- Its classes are in the root. -/
  | classes (ids : List ClassId)
  /-- It describes its package. -/
  | description
  /-- It was skipped, and that is reported. -/
  | skipped
deriving DecidableEq, Repr

namespace Build

/-! ### One file -/

/-- Report a problem with a file. -/
def report (b : Build) (file : String) (category : Category) (message : String) : Build :=
  { b with diagnostics := b.diagnostics ++ [{ file, category, message }] }

/-- What the documents of a file share. -/
def fileContext (settings : Settings) (file : String) : FileContext where
  packagePath := packagePathOf file
  file := baseName file
  links := settings.links
  options := .ofProperties settings.properties

/-- The class documents of a source file, by their names in its package. -/
def classesOf (settings : Settings) (language : Syntax.Language) (file source : String) :
    Except Syntax.ParseError (NameMap ClassDoc) := do
  let tree ← language.parse source
  return ((fileContext settings file).assemble tree).map fun doc => { doc with sourceFile := file }

/-- Add a package description. -/
def addDescription (b : Build) (file source : String) : Except RootError (Build × FileOutcome) :=
  match Markup.Body.extract source with
  | .error e => .ok (b.report file .markup e.message, .skipped)
  | .ok text => do
    let root ← b.root.describe (packagePathOf file) text
    return ({ b with root }, .description)

/-- Add the classes of a source file. -/
def addSource (b : Build) (language : Syntax.Language) (file source : String) :
    Except RootError (Build × FileOutcome) :=
  match classesOf b.settings language file source with
  | .error e => .ok (b.report file e.category e.message, .skipped)
  | .ok classes => do
    let stored ← b.root.put (packagePathOf file) file classes
    return ({ b with root := stored.root, diagnostics := b.diagnostics ++ stored.diagnostics },
      .classes stored.ids)

/-- Add a file to a root that is not resolved. -/
def process (b : Build) (file source : String) : Except RootError (Build × FileOutcome) := do
  b.root.checkOpen ("process " ++ file)
  match FileKind.ofName file with
  | .description => b.addDescription file source
  | .source language => b.addSource language file source

/-! ### Files of a source path -/

/-- The files of one name that are read. -/
inductive Selection where
  /-- These files. -/
  | files (found : List SourcePath.Found)
  /-- None, since these are too many. -/
  | ambiguous (paths : List String)

/-- Choose among the files of a name. -/
def select (settings : Settings) (tree : FileTree) (name : String) : Selection :=
  let found := settings.sourcePath.locate tree name
  match settings.searchPolicy with
  | .firstMatch => .files (found.take 1)
  | .lastMatch => .files found
  | .error =>
    if found.length ≤ 1 then .files found else .ambiguous (found.map SourcePath.Found.path)

/-- Add files under one name, up to the first one that is refused. -/
def addFiles (name : String) : Build → List SourcePath.Found → Build × Option RunError
  | b, [] => (b, none)
  | b, f :: fs =>
    match b.process name (String.ofList (Text.Utf8.decode f.content.toList)) with
    | .error e => (b, some (.document e))
    | .ok (b, _) => addFiles name b fs

/-- Add the files of the given names, up to the first one that is refused. -/
def addNames (tree : FileTree) : Build → List String → Build × Option RunError
  | b, [] => (b, none)
  | b, name :: names =>
    match select b.settings tree name with
    | .ambiguous paths =>
      addNames tree
        (b.report name .ambiguousSource
          ("found under more than one source root: " ++ ", ".intercalate paths))
        names
    | .files found =>
      match addFiles name b found with
      | (b, some e) => (b, some e)
      | (b, none) => addNames tree b names

/-- Resolve the root. -/
def resolve (b : Build) : Build := { b with root := b.root.resolve }

end Build

end ApiDoc
