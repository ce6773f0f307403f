import ApiDoc.Doc.Diagnostic
import ApiDoc.Doc.Lookup

/-!
# The root document

All class documents of a run. Each class has a number, its place in `classes`; the index finds the
number of a qualified name, and each package finds the numbers of its own classes. Classes are added
until the root is resolved: every type reference is then looked up once, and nothing changes any
more.
-/

namespace ApiDoc

/-! ### Packages -/

/-- The document of a package. -/
structure PackageDoc where
  path : String
  description : String := ""
  /-- The classes of the package, by their names in it. -/
  classes : NameMap ClassId := {}
deriving DecidableEq

namespace PackageDoc

/-- The dotted name of the package. -/
def dottedName (p : PackageDoc) : String := packageName p.path

/-- Add a class, in place of the one of the same name. -/
def put (p : PackageDoc) (name : String) (id : ClassId) : PackageDoc :=
  { p with classes := p.classes.insert name id }

/-- Remove a name if it stands for the given class. -/
def removeIf (p : PackageDoc) (name : String) (id : ClassId) : PackageDoc :=
  if p.classes.get? name = some id then { p with classes := p.classes.erase name } else p

end PackageDoc

/-! ### The root -/

/-- What happens to a class whose qualified name is taken. -/
inductive CollisionPolicy where
  /-- It replaces the earlier one. -/
  | overwrite
  /-- It replaces the earlier one, and that is reported. -/
  | report
  /-- It is left out, and that is reported. -/
  | keepFirst
deriving DecidableEq, Repr

/-- The name of a policy. -/
def CollisionPolicy.name : CollisionPolicy → String
  | .overwrite => "overwrite"
  | .report => "report"
  | .keepFirst => "keep-first"

/-- How far a root document has come. -/
inductive Stage where
  | empty
  | accumulating
  | resolved
deriving DecidableEq, Repr

/-- The name of a stage. -/
def Stage.name : Stage → String
  | .empty => "empty"
  | .accumulating => "accumulating"
  | .resolved => "resolved"

/-- How many type references were resolved, and how many that name a class were not. -/
structure Summary where
  resolved : Nat := 0
  unresolved : Nat := 0
deriving DecidableEq, Repr

/-- The root document. -/
structure Root where
  policy : CollisionPolicy := .overwrite
  /-- The classes, each at the place of its number. -/
  classes : List ClassDoc := []
  /-- The numbers of the classes, by qualified name. -/
  index : NameMap ClassId := {}
  packages : NameMap PackageDoc := {}
  stage : Stage := .empty
  summary : Summary := {}
deriving DecidableEq

/-- The ways to misuse a root document. -/
inductive RootError where
  /-- The root is resolved and does not change any more. -/
  | alreadyResolved (operation : String)
  /-- No class has this number. -/
  | unknownClass (id : ClassId)
deriving DecidableEq, Repr

/-- The wording of an error. -/
def RootError.message : RootError → String
  | .alreadyResolved operation => "root document is resolved; cannot " ++ operation
  | .unknownClass id => "unknown class handle: " ++ id.index.repr

namespace Root

/-- Is the root resolved? -/
def isResolved (r : Root) : Bool := r.stage = .resolved

/-- Fail if the root is resolved. -/
def checkOpen (r : Root) (operation : String) : Except RootError Unit :=
  if r.isResolved then .error (.alreadyResolved operation) else .ok ()

/-! ### Packages of the root -/

/-- Change a package, which is created if it is not there. -/
def onPackage (r : Root) (path : String) (f : PackageDoc → PackageDoc) : Root :=
  { r with
    packages := r.packages.insert path (f ((r.packages.get? path).getD { path }))
    stage := .accumulating }

/-- Make sure that a package exists. -/
def ensurePackage (r : Root) (path : String) : Except RootError Root := do
  r.checkOpen "create a package"
  return r.onPackage path id

/-- Set the description of a package. -/
def describe (r : Root) (path description : String) : Except RootError Root := do
  r.checkOpen "set a package description"
  return r.onPackage path fun p => { p with description }

/-! ### Adding classes -/

/-- The outcome of adding classes: the root, the numbers of the classes that are in it now, and what
there is to report. -/
structure Stored where
  root : Root
  ids : List ClassId := []
  diagnostics : List Diagnostic := []

/-- Forget where a class that is about to be replaced stands. -/
def forget (r : Root) (id : ClassId) (doc : ClassDoc) : Root :=
  match r.packages.get? doc.packagePath with
  | none => r
  | some p => { r with packages := r.packages.insert doc.packagePath (p.removeIf doc.name id) }

/-- Add a class under a new number. -/
def addClass (r : Root) (doc : ClassDoc) : Root :=
  let id : ClassId := ⟨r.classes.length⟩
  let r := { r with classes := r.classes ++ [doc], index := r.index.insert doc.qualifiedName id }
  r.onPackage doc.packagePath (·.put doc.name id)

/-- Put a class in the place of another one. -/
def replaceClass (r : Root) (id : ClassId) (previous doc : ClassDoc) : Root :=
  let r := r.forget id previous
  let r := { r with classes := r.classes.set id.index doc }
  r.onPackage doc.packagePath (·.put doc.name id)

/-- The report of a class from `file` that replaces another one. -/
def replacedDiagnostic (file : String) (previous doc : ClassDoc) : Diagnostic where
  file
  category := .classCollision
  message := doc.qualifiedName ++ " replaces the class from " ++ previous.sourceFile

/-- The report of a class from `file` that is left out for another one. -/
def keptDiagnostic (file : String) (previous doc : ClassDoc) : Diagnostic where
  file
  category := .classCollision
  message := doc.qualifiedName ++ " already defined in " ++ previous.sourceFile
    ++ "; kept the earlier class"

/-- Add a class of `file`, whose package exists. -/
def Stored.put (s : Stored) (file : String) (doc : ClassDoc) : Stored :=
  match s.root.index.get? doc.qualifiedName with
  | none =>
    { s with root := s.root.addClass doc, ids := s.ids ++ [⟨s.root.classes.length⟩] }
  | some id =>
    match s.root.classes[id.index]? with
    | none => s
    | some previous =>
      match s.root.policy with
      | .keepFirst =>
        { s with diagnostics := s.diagnostics ++ [keptDiagnostic file previous doc] }
      | .report =>
        { root := s.root.replaceClass id previous doc, ids := s.ids ++ [id],
          diagnostics := s.diagnostics ++ [replacedDiagnostic file previous doc] }
      | .overwrite =>
        { s with root := s.root.replaceClass id previous doc, ids := s.ids ++ [id] }

/-- Add the classes of a file to a package, in the order of their names. Each class takes its name
and its package from where it is put. -/
def put (r : Root) (path file : String) (classes : NameMap ClassDoc) : Except RootError Stored := do
  r.checkOpen "add classes"
  let start : Stored := { root := r.onPackage path id }
  return classes.entries.foldl
    (fun s e => s.put file { e.2 with name := e.1, packagePath := path }) start

/-! ### Resolving -/

/-- Look up every type reference of a class. -/
def resolveClass (index : NameMap ClassId) (doc : ClassDoc) : ClassDoc :=
  doc.mapTypeRefs fun ref => { ref with resolved := Lookup.byRef index doc ref }

/-- Count the type references of classes. -/
def summarize (classes : List ClassDoc) : Summary :=
  let refs := classes.flatMap ClassDoc.typeRefs
  { resolved := refs.countP fun ref => ref.resolved.isSome
    unresolved := refs.countP fun ref => ref.resolved.isNone && !ref.isBuiltin }

/-- Look up every type reference. A root that is resolved stays as it is. -/
def resolve (r : Root) : Root :=
  if r.isResolved then r
  else
    let classes := r.classes.map (resolveClass r.index)
    { r with classes, summary := summarize classes, stage := .resolved }

/-! ### Asking -/

/-- The class with a number. -/
def getClass (r : Root) (id : ClassId) : Except RootError ClassDoc :=
  match r.classes[id.index]? with
  | some doc => .ok doc
  | none => .error (.unknownClass id)

/-- The class with a qualified name. -/
def classNamed? (r : Root) (qualifiedName : String) : Option ClassDoc :=
  (r.index.get? qualifiedName).bind fun id => r.classes[id.index]?

/-- The class of a package. -/
def classInPackage? (r : Root) (path name : String) : Option ClassDoc := do
  let package ← r.packages.get? path
  let id ← package.classes.get? name
  r.classes[id.index]?

/-- The classes with their numbers, in the order of their qualified names. -/
def sortedClasses (r : Root) : List (ClassId × ClassDoc) :=
  r.index.values.filterMap fun id => (r.classes[id.index]?).map fun doc => (id, doc)

/-! ### Consistency -/

/-- The ways in which the parts of a root could disagree. -/
inductive Inconsistency where
  | unknownClass (id : ClassId)
  /-- A class is indexed under a name that is not its own. -/
  | wrongName (own indexed : String)
  /-- A class is not held by its own package alone. -/
  | wrongOwners (qualifiedName : String) (owners : List String) (package : String)
  /-- A class of a package is not in the index. -/
  | notIndexed (name package : String)
deriving DecidableEq, Repr

/-- The wording of a disagreement. -/
def Inconsistency.message : Inconsistency → String
  | .unknownClass id => RootError.message (.unknownClass id)
  | .wrongName own indexed => own ++ " is indexed under " ++ indexed
  | .wrongOwners qualifiedName owners package =>
    qualifiedName ++ " is held by packages [" ++ ", ".intercalate (owners.map Text.quoted)
      ++ "], expected [" ++ package ++ "]"
  | .notIndexed name package =>
    name ++ " in package " ++ package ++ " is missing from the class index"

/-- The paths of the packages that hold a class. -/
def ownersOf (r : Root) (id : ClassId) : List String :=
  (r.packages.values.filter fun p => p.classes.values.contains id).map PackageDoc.path

/-- Check an entry of the index. -/
def checkIndexed (r : Root) (qualifiedName : String) (id : ClassId) : Except Inconsistency Unit :=
  match r.classes[id.index]? with
  | none => .error (.unknownClass id)
  | some doc =>
    if doc.qualifiedName ≠ qualifiedName then .error (.wrongName doc.qualifiedName qualifiedName)
    else if r.ownersOf id ≠ [doc.packagePath] then
      .error (.wrongOwners qualifiedName (r.ownersOf id) doc.packagePath)
    else .ok ()

/-- Check a class that a package holds. -/
def checkHeld (r : Root) (package : PackageDoc) (id : ClassId) : Except Inconsistency Unit :=
  match r.classes[id.index]? with
  | none => .error (.unknownClass id)
  | some doc =>
    if r.index.get? doc.qualifiedName ≠ some id then .error (.notIndexed doc.name package.path)
    else .ok ()

/-- Check that the index and the packages agree: every class is indexed under its qualified name and
held by its own package and no other. -/
def check (r : Root) : Except Inconsistency Unit := do
  r.index.entries.forM fun e => r.checkIndexed e.1 e.2
  r.packages.values.forM fun package => package.classes.values.forM (r.checkHeld package)

end Root

end ApiDoc
