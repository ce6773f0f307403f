import ApiDoc.Project.Path

/-!
# File trees

The files that a run sees, as one value: the working directory with everything below it. Paths are
followed as the platform does, with its limits on the length of names and paths, and a path that
leads nowhere does so for one of four reasons (`Missing`).
-/

namespace ApiDoc

/-- A file or a directory. -/
inductive FileTree where
  | file (content : ByteArray)
  /-- The entries of a directory, by name. -/
  | dir (entries : List (String × FileTree))
deriving Inhabited

namespace FileTree

/-! ### Finding an entry -/

/-- Why a path leads nowhere. -/
inductive Missing where
  /-- A step has no entry. -/
  | noEntry
  /-- A step starts at a file. -/
  | notDirectory
  /-- The path or the name of a step is too long. -/
  | tooLong
  /-- The path has a zero byte in it. -/
  | zeroByte
deriving DecidableEq, Repr

/-- The most bytes that a name may have. -/
def maxNameBytes : Nat := 255

/-- The most bytes that a path may have. -/
def maxPathBytes : Nat := 4095

/-- Follow the pieces of a path from an entry; `around` are the directories that it lies in, the
innermost first. There is nothing above the outermost one. -/
def walk (around : List FileTree) : FileTree → List String → Except Missing FileTree
  | t, [] => .ok t
  | .file _, _ :: _ => .error .notDirectory
  | .dir entries, piece :: path =>
    if piece.isEmpty || piece = "." then walk around (.dir entries) path
    else if piece = ".." then
      match around with
      | [] => .error .noEntry
      | parent :: outer => walk outer parent path
    else if piece.utf8ByteSize > maxNameBytes then .error .tooLong
    else
      match entries.find? fun e => e.1 = piece with
      | none => .error .noEntry
      | some e => walk (.dir entries :: around) e.2 path
termination_by _ path => path.length

/-- The entry at a path. The empty path leads nowhere. -/
def lookup (t : FileTree) (path : String) : Except Missing FileTree :=
  if path.toList.contains '\x00' then .error .zeroByte
  else if path.isEmpty then .error .noEntry
  else if path.utf8ByteSize > maxPathBytes then .error .tooLong
  else walk [] t (Path.pieces path)

/-- The content of the file at a path. -/
def content? (t : FileTree) (path : String) : Option ByteArray :=
  match t.lookup path with
  | .ok (.file content) => some content
  | _ => none

/-- Is there a directory at a path? -/
def isDirectory (t : FileTree) (path : String) : Bool :=
  match t.lookup path with
  | .ok (.dir _) => true
  | _ => false

/-! ### Building a tree -/

/-- Put an entry at a path of names. Directories on the way are created; a file on the way gives way
to a directory. -/
def insert (t : FileTree) : List String → FileTree → FileTree
  | [], entry => entry
  | name :: path, entry =>
    let entries := match t with
      | .dir entries => entries
      | .file _ => []
    let child := match entries.find? fun e => e.1 = name with
      | some e => e.2
      | none => .dir []
    .dir (entries.filter (fun e => e.1 ≠ name) ++ [(name, child.insert path entry)])
termination_by path => path.length

/-! ### Listing files -/

mutual

/-- The paths of the files below a tree, in which no step starts with a dot. -/
def visibleFiles : FileTree → List (List String)
  | .file _ => [[]]
  | .dir entries => visibleFilesIn entries

/-- The paths of the files below the entries of a directory. -/
def visibleFilesIn : List (String × FileTree) → List (List String)
  | [] => []
  | (name, t) :: entries =>
    (if name.toList.head? = some '.' then [] else t.visibleFiles.map (name :: ·))
      ++ visibleFilesIn entries

end

end FileTree

end ApiDoc
