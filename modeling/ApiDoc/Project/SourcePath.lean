import ApiDoc.Project.FileTree

/-!
# Source paths

The directories that sources are looked for in, in order. A source is known by its name below one of
them, so one name can stand for several files. Names are discovered in the order of the directories
and sorted within each one.
-/

namespace ApiDoc

/-- The directories that sources are looked for in. -/
abbrev SourcePath := List String

namespace SourcePath

/-- A file with the path that it was found at. -/
structure Found where
  path : String
  content : ByteArray

/-- The files of a name, in the order of the source path. -/
def locate (roots : SourcePath) (tree : FileTree) (name : String) : List Found :=
  roots.filterMap fun root =>
    let path := Path.join root name
    (tree.content? path).map fun content => { path, content }

/-- The names of the documented files below one directory, in order. A file in place of the
directory has the empty name. -/
def discoverBelow (tree : FileTree) (root : String) : List String :=
  match tree.lookup root with
  | .error _ => []
  | .ok (.file _) => if Path.isDocumentable root then [""] else []
  | .ok (.dir entries) =>
    ((FileTree.dir entries).visibleFiles.map "/".intercalate).filter Path.isDocumentable
      |>.mergeSort (fun a b => a ≤ b)

/-- The names of the documented files, each once, where it comes first. -/
def discover (roots : SourcePath) (tree : FileTree) : List String :=
  (roots.flatMap (discoverBelow tree)).eraseDups

end SourcePath

end ApiDoc
