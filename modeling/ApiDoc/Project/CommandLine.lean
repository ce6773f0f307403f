import ApiDoc.Json.Printer
import ApiDoc.Project.Report
import ApiDoc.Project.SettingsFile

/-!
# The command line

Arguments are read one by one into an invocation, which is then carried out on a file tree. Flags
for every command may stand before or behind the command; those behind it count.
-/

namespace ApiDoc.CommandLine

/-! ### Invocations -/

/-- The flags of every command. -/
structure Shared where
  config : Option String := none
  sourcePath : SourcePath := []
  logLevel : Option String := none
  logJson : Bool := false

/-- What a build is asked for. -/
structure BuildRequest where
  /-- The names of the files; without any, all files are looked for. -/
  files : List String := []
  searchPolicy : Option SearchPolicy := none
  collisionPolicy : Option CollisionPolicy := none
  properties : List (String × String) := []
  links : List Link := []
  documents : Bool := false

/-- A command. -/
inductive Command where
  /-- Print a report on the classes of files. -/
  | build (request : BuildRequest)
  /-- Print the names of the files that are found. -/
  | files

/-- A command with what it is told. -/
structure Invocation where
  shared : Shared
  command : Command

/-- Why arguments give no invocation. -/
inductive Refusal where
  /-- The version is asked for. -/
  | version
  /-- Help is asked for. -/
  | help
  /-- The arguments make no sense. -/
  | usage
deriving DecidableEq, Repr

/-! ### Reading arguments -/

/-- What the next argument can be. -/
inductive Mode where
  /-- A flag, an option or a word. -/
  | anything
  /-- The value of an option. -/
  | valueOf (option : String)
  /-- A word, whatever it looks like. -/
  | wordsOnly
  /-- The name of the command that help is asked on. -/
  | helpTopic
  /-- Nothing: help is asked on a command. -/
  | nothing

/-- What is known of an invocation while its arguments are read. -/
structure Reading where
  mode : Mode := .anything
  /-- The flags before the command. -/
  before : Shared := {}
  /-- The command and the flags behind it. -/
  command : Option Command := none
  behind : Shared := {}

/-- A step in reading arguments. -/
abbrev Step := Except Refusal Reading

/-- Set a value that can be set once only. -/
def setOnce {α : Type} (old : Option α) (new : α) : Except Refusal (Option α) :=
  match old with
  | none => .ok (some new)
  | some _ => .error .usage

/-- A value that must be there. -/
def valid {α : Type} : Option α → Except Refusal α
  | some a => .ok a
  | none => .error .usage

/-- Split a text at its first equals sign. -/
def atEquals? (text : String) : Option (String × String) :=
  (Text.cutAt? ['='] text.toList).map fun (before, behind) =>
    (String.ofList before, String.ofList behind)

/-- Read `key=value`. The blanks around the key do not count, and some of it must be left. -/
def property? (text : String) : Option (String × String) := do
  let (key, value) ← atEquals? text
  let key := Text.trimmed key
  if key.isEmpty then none else some (key, value)

/-- Read `packages=href`, where neither is empty. -/
def link? (text : String) : Option Link := do
  let (packages, href) ← atEquals? text
  if packages.isEmpty || href.isEmpty then none else some { packages, href }

/-- Read a path, which is not empty. -/
def path? (text : String) : Option String := if text.isEmpty then none else some text

/-- The levels of logging. -/
def logLevels : List String := ["trace", "debug", "info", "warn", "error"]

/-- Set an option of every command. Gives nothing if there is no such option. -/
def Shared.option? (s : Shared) (name value : String) : Option (Except Refusal Shared) :=
  match name with
  | "config" => some do
    return { s with config := ← setOnce s.config (← valid (path? value)) }
  | "source-path" => some do
    return { s with sourcePath := s.sourcePath ++ [← valid (path? value)] }
  | "log-level" => some do
    if logLevels.contains value then return { s with logLevel := ← setOnce s.logLevel value }
    else throw .usage
  | _ => none

/-- Set an option of a build. -/
def BuildRequest.option (b : BuildRequest) (name value : String) : Except Refusal BuildRequest :=
  match name with
  | "search-policy" => do
    let policy ← valid (SearchPolicy.ofName? value)
    return { b with searchPolicy := ← setOnce b.searchPolicy policy }
  | "collision-policy" => do
    let policy ← valid (CollisionPolicy.ofName? value)
    return { b with collisionPolicy := ← setOnce b.collisionPolicy policy }
  | "property" => do
    return { b with properties := b.properties ++ [← valid (property? value)] }
  | "link" => do
    return { b with links := b.links ++ [← valid (link? value)] }
  | _ => throw .usage

namespace Reading

/-- Set an option to a value. -/
def option (r : Reading) (name value : String) : Step :=
  let r := { r with mode := .anything }
  match r.command with
  | none =>
    match r.before.option? name value with
    | some before => do return { r with before := ← before }
    | none => throw .usage
  | some command =>
    match r.behind.option? name value with
    | some behind => do return { r with behind := ← behind }
    | none =>
      match command with
      | .build request => do
        return { r with command := some (.build (← request.option name value)) }
      | .files => throw .usage

/-- Does an option of this name take a value here? -/
def takesValue (r : Reading) (name : String) : Bool :=
  ["config", "source-path", "log-level"].contains name
    || match r.command with
      | some (.build _) =>
        ["search-policy", "collision-policy", "property", "link"].contains name
      | _ => false

/-- Set the flag for logs as JSON. -/
def setLogJson (s : Shared) : Except Refusal Shared :=
  if s.logJson then .error .usage else .ok { s with logJson := true }

/-- Set a flag. -/
def flag (r : Reading) (name : String) : Step :=
  match name, r.command with
  | "help", _ => throw .help
  | "version", none => throw .version
  | "log-json", none => do return { r with before := ← setLogJson r.before }
  | "log-json", some _ => do return { r with behind := ← setLogJson r.behind }
  | "documents", some (.build request) =>
    if request.documents then throw .usage
    else return { r with command := some (.build { request with documents := true }) }
  | _, _ => throw .usage

/-- Read an argument that starts with two dashes, which `text` follows. -/
def long (r : Reading) (text : String) : Step :=
  match atEquals? text with
  | some (name, value) => if r.takesValue name then r.option name value else throw .usage
  | none =>
    if r.takesValue text then return { r with mode := .valueOf text } else r.flag text

/-- Read an argument that starts with one dash, which `letters` follow. -/
def short (r : Reading) (letters : List Char) : Step :=
  match letters.head?, r.command with
  | some 'h', _ => throw .help
  | some 'V', none => throw .version
  | _, _ => throw .usage

/-- Read a word: the name of a command, or of a file for a build. Before a command, `help` asks for
help. -/
def word (r : Reading) (text : String) : Step :=
  match r.command with
  | some (.build request) =>
    return { r with command := some (.build { request with files := request.files ++ [text] }) }
  | some .files => throw .usage
  | none =>
    match r.mode, text with
    | .wordsOnly, _ => throw .usage
    | _, "build" => return { r with command := some (.build {}) }
    | _, "files" => return { r with command := some .files }
    | _, "help" => return { r with mode := .helpTopic }
    | _, _ => throw .usage

/-- The names that help is given on. -/
def topics : List String := ["build", "files", "help"]

/-- Read the name of the command that help is asked on. -/
def topic (r : Reading) (text : String) : Step :=
  if topics.contains text then return { r with mode := .nothing } else throw .usage

/-- Read an argument. A single dash is a word, and two dashes end the flags. -/
def argument (r : Reading) (text : String) : Step :=
  match r.mode, text.toList with
  | .wordsOnly, _ => r.word text
  | .helpTopic, _ => r.topic text
  | .nothing, _ => throw .usage
  | .valueOf _, '-' :: _ :: _ => throw .usage
  | .valueOf name, _ => r.option name text
  | .anything, ['-', '-'] => return { r with mode := .wordsOnly }
  | .anything, '-' :: '-' :: name => r.long (String.ofList name)
  | .anything, '-' :: c :: cs => r.short (c :: cs)
  | .anything, _ => r.word text

/-- The invocation that has been read. A value must not be missing, nor the command. -/
def finish (r : Reading) : Except Refusal Invocation :=
  match r.mode, r.command with
  | .valueOf _, _ => throw .usage
  | .helpTopic, _ | .nothing, _ => throw .help
  | _, none => throw .usage
  | _, some command =>
    let sourcePath := if r.behind.sourcePath.isEmpty then r.before.sourcePath
      else r.behind.sourcePath
    return {
      command
      shared :=
        { r.behind with config := r.behind.config <|> r.before.config, sourcePath
                        logLevel := r.behind.logLevel <|> r.before.logLevel
                        logJson := r.behind.logJson || r.before.logJson } }

end Reading

/-- Read arguments. -/
def parse (args : List String) : Except Refusal Invocation := do
  let reading ← args.foldlM Reading.argument {}
  reading.finish

/-! ### Carrying out -/

/-- The settings of an invocation: those of the file, with the source path of the flags in place of
its own. Each root of the source path must be a directory. -/
def Shared.settings (s : Shared) (tree : FileTree) : Except RunError Settings := do
  let settings ← match s.config with
    | some path => SettingsFile.load tree path
    | none => SettingsFile.loadOrDefault tree ""
  let settings :=
    if s.sourcePath.isEmpty then settings else { settings with sourcePath := s.sourcePath }
  match settings.sourcePath.find? fun root => !tree.isDirectory root with
  | some root => throw (.notFound root)
  | none => return settings

/-- Settings with what a build is asked for. The links of the request come behind the others. -/
def BuildRequest.refine (b : BuildRequest) (s : Settings) : Settings where
  sourcePath := s.sourcePath
  searchPolicy := b.searchPolicy.getD s.searchPolicy
  collisionPolicy := b.collisionPolicy.getD s.collisionPolicy
  properties := b.properties.foldl (fun p e => p.insert e.1 e.2) s.properties
  links := s.links ++ b.links

/-- Carry out a build. -/
def BuildRequest.run (b : BuildRequest) (s : Settings) (tree : FileTree) : Except RunError Json :=
  let settings := b.refine s
  let names := if b.files.isEmpty then settings.sourcePath.discover tree else b.files
  match Build.addNames tree { settings } names with
  | (_, some e) => .error e
  | (build, none) => .ok (Report.ofBuild build.resolve b.documents)

/-- Carry out an invocation. -/
def Invocation.run (i : Invocation) (tree : FileTree) : Except RunError Json := do
  let settings ← i.shared.settings tree
  match i.command with
  | .build request => request.run settings tree
  | .files => return Report.ofFiles (settings.sourcePath.discover tree)

/-! ### Output -/

/-- What a program run leaves: its exit code and what it prints. -/
structure Output where
  exitCode : Nat
  stdout : String := ""
deriving DecidableEq, Repr

/-- The line that the version is printed on. -/
def versionLine : String := "grovedoc 0.1.0\n"

/-- The text that help is printed as. -/
def helpText : String :=
  "\n".intercalate
    ["Groovy and Java documentation model builder",
     "",
     "Usage: grovedoc [OPTIONS] <COMMAND>",
     "",
     "Commands:",
     "  build [FILES]...  Build the documentation model and print a summary",
     "  files             List the files found under the source roots",
     "",
     "Options:",
     "  --config <PATH>              Settings file",
     "  --source-path <PATH>         Source root; repeat for a search path",
     "  --log-level <LEVEL>          trace, debug, info, warn or error",
     "  --log-json                   Emit logs as JSON lines",
     "",
     "Options of build:",
     "  --search-policy <POLICY>     first-match, last-match or error",
     "  --collision-policy <POLICY>  overwrite, report or keep-first",
     "  --property <KEY=VALUE>       Set a property; repeatable",
     "  --link <PACKAGES=HREF>       Add a link; repeatable",
     "  --documents                  Include full class documents",
     ""]

/-- The outcome of an invocation as output. -/
def Output.ofRun : Except RunError Json → Output
  | .ok report => { exitCode := 0, stdout := report.pretty }
  | .error e => { exitCode := e.exitCode, stdout := (Report.ofError e).pretty }

/-- The output when arguments give no invocation. -/
def Output.ofRefusal : Refusal → Output
  | .version => { exitCode := 0, stdout := versionLine }
  | .help => { exitCode := 0, stdout := helpText }
  | .usage => { exitCode := 2 }

/-- Run the program with the given arguments on a file tree. -/
def run (args : List String) (tree : FileTree) : Output :=
  match parse args with
  | .error refusal => .ofRefusal refusal
  | .ok invocation => .ofRun (invocation.run tree)

end ApiDoc.CommandLine
