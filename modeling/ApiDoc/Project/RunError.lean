import ApiDoc.Doc.Root

/-!
# Run errors

What ends a run. A problem with a single file is a diagnostic and ends nothing. An error has a
wording, an exit code and, if it is about a file, the path of that file.
-/

namespace ApiDoc

/-- What ends a run. -/
inductive RunError where
  /-- The arguments make no sense. -/
  | arguments (message : String)
  /-- The settings file at `path` makes no sense. -/
  | config (path message : String)
  /-- There is nothing at `path`. -/
  | notFound (path : String)
  /-- What is at `path` cannot be read. -/
  | unreadable (path reason : String)
  /-- The root document is misused. -/
  | document (error : RootError)
  | internal (message : String)
deriving DecidableEq, Repr

namespace RunError

/-- The wording of an error. -/
def message : RunError → String
  | arguments message => "invalid arguments: " ++ message
  | config path message => "invalid configuration in " ++ path ++ ": " ++ message
  | notFound path => "not found: " ++ path
  | unreadable path reason => "cannot read " ++ path ++ ": " ++ reason
  | document error => error.message
  | internal message => "internal error: " ++ message

/-- The exit code of a run that ends with an error. -/
def exitCode : RunError → Nat
  | arguments _ | config _ _ => 2
  | notFound _ => 3
  | unreadable _ _ | document _ | internal _ => 10

/-- The path that an error is about. -/
def path? : RunError → Option String
  | config path _ | notFound path | unreadable path _ => some path
  | arguments _ | document _ | internal _ => none

end RunError

end ApiDoc
