import ApiDoc.Project.CommandLine

/-!
# The program

Reads the working directory and runs the command line on it. A run sees what lies below the working
directory and nothing else.
-/

namespace ApiDoc

/-- The file tree of a directory entry, with its name. A file that cannot be read is left out. -/
partial def readEntry (entry : IO.FS.DirEntry) : IO (Option (String × FileTree)) := do
  if ← entry.path.isDir then
    let entries ← (← entry.path.readDir).toList.filterMapM readEntry
    return some (entry.fileName, .dir entries)
  try
    return some (entry.fileName, .file (← IO.FS.readBinFile entry.path))
  catch _ => return none

end ApiDoc

/-- Run the command line on the working directory. -/
def main (args : List String) : IO UInt32 := do
  let entries ← (← (← IO.currentDir).readDir).toList.filterMapM ApiDoc.readEntry
  let output := ApiDoc.CommandLine.run args (.dir entries)
  IO.print output.stdout
  if output.stdout.isEmpty then IO.eprintln "invalid arguments, see --help"
  return output.exitCode.toUInt32
