import ApiDoc.Doc.Record
import ApiDoc.Project.Build

/-!
# Reports

What a run prints: one JSON object, whose first field says whether the run succeeded. A listing of
packages and classes is a value of its own before it is printed, so that two runs can be compared
by what they list.
-/

namespace ApiDoc.Report

/-- The version of the format. -/
def schemaVersion : String := "1"

/-- A report with a status and further fields. -/
def withStatus (status : String) (fields : List (String × Json)) : Json :=
  .obj ([("status", .str status), ("schema_version", .str schemaVersion)] ++ fields)

/-! ### Success -/

/-- A package in a report. -/
structure PackageEntry where
  path : String
  /-- The dotted name. -/
  name : String
  description : String
  /-- The names of its classes, in order. -/
  classes : List String
deriving DecidableEq, Repr

/-- A superclass in a report. -/
structure SuperclassEntry where
  name : String
  /-- Is it a class of the run? -/
  resolved : Bool
deriving DecidableEq, Repr

/-- A class in a report. -/
structure ClassEntry where
  qualifiedName : String
  kind : String
  sourceFile : String
  superclass : Option SuperclassEntry
deriving DecidableEq, Repr

/-- What a report says of a root: its packages and classes, in order of their names, how its type
references fared, and what there was to say about files. -/
structure Listing where
  packages : List PackageEntry
  classes : List ClassEntry
  resolution : Summary
  diagnostics : List Diagnostic
  /-- The class documents, if they are asked for. -/
  documents : Option (List ClassDoc) := none
deriving DecidableEq, Repr

/-- The entry of a package. -/
def PackageEntry.ofDoc (p : PackageDoc) : PackageEntry where
  path := p.path
  name := p.dottedName
  description := p.description
  classes := p.classes.names

/-- The entry of a superclass. -/
def SuperclassEntry.ofRef (t : TypeRef) : SuperclassEntry where
  name := t.name
  resolved := t.resolved.isSome

/-- The entry of a class. -/
def ClassEntry.ofDoc (c : ClassDoc) : ClassEntry where
  qualifiedName := c.qualifiedName
  kind := c.kind.name
  sourceFile := c.sourceFile
  superclass := c.superclass.map SuperclassEntry.ofRef

namespace Listing

/-- List a root. -/
def ofRoot (r : Root) (resolution : Summary) (diagnostics : List Diagnostic) : Listing where
  packages := r.packages.values.map PackageEntry.ofDoc
  classes := (r.sortedClasses.map fun c => ClassEntry.ofDoc c.2).mergeSort fun a b =>
    a.qualifiedName ≤ b.qualifiedName
  resolution
  diagnostics

/-- List the root of a build. -/
def ofBuild (b : Build) : Listing := ofRoot b.root b.root.summary b.diagnostics

/-- Add the class documents of a root. -/
def withDocuments (l : Listing) (r : Root) : Listing :=
  { l with documents := some ((r.sortedClasses.map Prod.snd).mergeSort fun a b =>
      a.qualifiedName ≤ b.qualifiedName) }

end Listing

/-- A package as JSON. -/
def PackageEntry.toJson (p : PackageEntry) : Json :=
  .obj [("path", .str p.path), ("name", .str p.name), ("description", .str p.description),
    ("classes", .strings p.classes)]

/-- A superclass as JSON. -/
def SuperclassEntry.toJson (t : SuperclassEntry) : Json :=
  .obj [("name", .str t.name), ("resolved", .bool t.resolved)]

/-- A class as JSON. -/
def ClassEntry.toJson (c : ClassEntry) : Json :=
  .obj ([("qualified_name", .str c.qualifiedName), ("kind", .str c.kind),
      ("source_file", .str c.sourceFile)]
    ++ Json.optional "superclass" SuperclassEntry.toJson c.superclass)

/-- A listing as JSON. -/
def Listing.toJson (l : Listing) : Json :=
  withStatus "ok"
    ([("packages", .arr (l.packages.map PackageEntry.toJson)),
      ("classes", .arr (l.classes.map ClassEntry.toJson)),
      ("resolution", l.resolution.toJson),
      ("diagnostics", .arr (l.diagnostics.map Diagnostic.toJson))]
    ++ Json.optional "documents" (fun docs => .arr (docs.map ClassDoc.toJson)) l.documents)

/-- The report of a build whose root is resolved. The class documents are part of it if they are
asked for. -/
def ofBuild (b : Build) (documents : Bool) : Json :=
  let listing := Listing.ofBuild b
  (if documents then listing.withDocuments b.root else listing).toJson

/-- The report of the files that are found. -/
def ofFiles (names : List String) : Json :=
  withStatus "ok" [("files", .strings names)]

/-! ### Failure -/

/-- The report of an error. -/
def ofError (e : RunError) : Json :=
  withStatus "error"
    [("error", .obj ([("code", .nat e.exitCode), ("message", .str e.message)]
      ++ Json.optional "details" (fun path => .obj [("path", .str path)]) e.path?))]

end ApiDoc.Report
