import ApiDoc.Project.RunError
import ApiDoc.Project.Settings
import ApiDoc.Toml.Reader

/-!
# Settings files

A run is configured by a TOML file. What the file does not set stands at its default, and keys that
have no meaning are passed over. A record may also be written as an array of its fields, in order.
-/

namespace ApiDoc.SettingsFile

open Toml (Value)

/-- The name of the settings file of a directory. -/
def fileName : String := "grovedoc.toml"

/-- Why a file does not give settings. -/
inductive Fault where
  /-- The file is no TOML. -/
  | malformed
  /-- A key has a value that it cannot have, or lacks one. -/
  | badValue (key : String)
  /-- The table of the settings is there under both of its names. -/
  | repeatedTable
deriving DecidableEq, Repr

/-- The wording of a fault. -/
def Fault.message : Fault → String
  | .malformed => "failed to parse config file: not a TOML document"
  | .badValue key => "failed to parse config file: invalid value for " ++ key
  | .repeatedTable => "failed to parse config file: settings given twice"

/-! ### Fields -/

/-- The fields of a record with the given names. -/
def fieldsOf? (names : List String) : Value → Option (List (String × Value))
  | .array items => some (names.zip items)
  | v => v.entries?.map fun entries => entries.filter fun e => names.contains e.1

/-- Read a field that need not be there. -/
def optional {α : Type} (fields : List (String × Value)) (key : String)
    (read? : Value → Option α) (default : α) : Except Fault α :=
  match fields.find? fun e => e.1 = key with
  | none => .ok default
  | some e =>
    match read? e.2 with
    | some a => .ok a
    | none => .error (.badValue key)

/-- Read a field that must be there. -/
def required {α : Type} (fields : List (String × Value)) (key : String)
    (read? : Value → Option α) : Option α := do
  let e ← fields.find? fun e => e.1 = key
  read? e.2

/-! ### Values -/

/-- Read a string. -/
def string? : Value → Option String
  | .str s => some s
  | _ => none

/-- Read an array. -/
def array? {α : Type} (item? : Value → Option α) : Value → Option (List α)
  | .array items => items.mapM item?
  | _ => none

/-- Read one of several names: as a string, or as the key of an empty table or array. -/
def choice? {α : Type} (ofName? : String → Option α) : Value → Option α
  | .str name => ofName? name
  | .table [(name, .table [])] | .table [(name, .array [])] => ofName? name
  | _ => none

/-- Read a table of strings. -/
def properties? (v : Value) : Option Properties := do
  let entries ← v.entries?
  let strings ← entries.mapM fun e => (string? e.2).map fun s => (e.1, s)
  return .ofList strings

/-- Read a link. -/
def link? (v : Value) : Option Link := do
  let fields ← fieldsOf? ["packages", "href"] v
  return { packages := ← required fields "packages" string?
           href := ← required fields "href" string? }

/-! ### Files -/

/-- Read the table of the settings. -/
def settings (v : Value) : Except Fault Settings := do
  let names := ["source_path", "search_policy", "collision_policy", "properties", "links"]
  let some fields := fieldsOf? names v | throw (.badValue "grovedoc")
  let defaults : Settings := {}
  return {
    sourcePath := ← optional fields "source_path" (array? string?) defaults.sourcePath
    searchPolicy :=
      ← optional fields "search_policy" (choice? SearchPolicy.ofName?) defaults.searchPolicy
    collisionPolicy :=
      ← optional fields "collision_policy" (choice? CollisionPolicy.ofName?)
          defaults.collisionPolicy
    properties := ← optional fields "properties" properties? defaults.properties
    links := ← optional fields "links" (array? link?) defaults.links }

/-- Read the settings that a text gives, in its table `grovedoc` or `groovydoc`. -/
def parse (text : String) : Except Fault Settings :=
  match Toml.parse text with
  | none => .error .malformed
  | some entries =>
    match entries.filter fun e => e.1 = "grovedoc" || e.1 = "groovydoc" with
    | [] => .ok {}
    | [e] => settings e.2
    | _ => .error .repeatedTable

/-- Read the settings file at a path. -/
def load (tree : FileTree) (path : String) : Except RunError Settings :=
  match tree.lookup path with
  | .error .noEntry => .error (.notFound path)
  | .error .notDirectory => .error (.unreadable path "Not a directory (os error 20)")
  | .error .tooLong => .error (.unreadable path "File name too long (os error 36)")
  | .error .zeroByte =>
    .error (.unreadable path "file name contained an unexpected NUL byte")
  | .ok (.dir _) => .error (.unreadable path "Is a directory (os error 21)")
  | .ok (.file content) =>
    match String.fromUTF8? content with
    | none => .error (.unreadable path "stream did not contain valid UTF-8")
    | some text => (parse text).mapError fun fault => .config path fault.message

/-- Read the settings file of a directory. Without one, everything stands at its default. -/
def loadOrDefault (tree : FileTree) (directory : String) : Except RunError Settings :=
  let path := Path.join directory fileName
  match tree.lookup path with
  | .error _ => .ok {}
  | .ok _ => load tree path

end ApiDoc.SettingsFile
