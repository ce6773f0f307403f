import ApiDoc.Syntax.Fault

/-!
# Diagnostics

What a run reports about the files it read. A problem with one file never ends the run. The category
tells whether the file was skipped: only a collision of two classes leaves both files read.
-/

namespace ApiDoc

/-- What a diagnostic is about. -/
inductive Category where
  /-- The file does not follow the grammar. -/
  | grammar
  /-- The file cannot be split into tokens. -/
  | tokenStream
  /-- The markup of a package description is malformed. -/
  | markup
  /-- Two classes have the same qualified name. -/
  | classCollision
  /-- A file is found in more than one place. -/
  | ambiguousSource
deriving DecidableEq, Repr

namespace Category

/-- The name of a category. -/
def label : Category → String
  | grammar => "grammar"
  | tokenStream => "token-stream"
  | markup => "markup"
  | classCollision => "class-collision"
  | ambiguousSource => "ambiguous-source"

/-- Was the file skipped? -/
def skipsFile : Category → Bool
  | classCollision => false
  | _ => true

end Category

/-- The category of a syntax error. -/
def Syntax.ParseError.category (e : Syntax.ParseError) : Category :=
  if e.fault.isLexical then .tokenStream else .grammar

/-- A report about a file. -/
structure Diagnostic where
  file : String
  category : Category
  message : String
deriving DecidableEq, Repr

/-- A diagnostic as text. -/
def Diagnostic.render (d : Diagnostic) : String :=
  "ignored " ++ d.file ++ " (" ++ d.category.label ++ "): " ++ d.message

end ApiDoc
