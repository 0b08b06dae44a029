import PeerNet.CommandLine.Run

/-!
# The program

Reads the files that a request names, runs the request, and writes what it
changed. Nothing is decided here but how the result of a run reaches the world.
-/

set_option autoImplicit false

namespace PeerNet

def usage : String :=
  "usage: peernet [-c FILE] [--assets DIR] COMMAND\n" ++
    "commands: create, random, template, scratch, info, peers, layout, presets"

def systemText (path : FilePath) : String :=
  "/" ++ path.toText

def addDirectories (tree : FileTree) (path : FilePath) : IO FileTree := do
  let here ← IO.currentDir
  let above := (List.range (path.length + 1)).map path.take
  let directories ← above.filterM fun directory => (here / systemText directory).isDir
  return { tree with directories := tree.directories ++ directories }

def addFile (tree : FileTree) (path : FilePath) : IO FileTree := do
  let tree ← addDirectories tree path
  match tree.follow? [] path with
  | none => return tree
  | some place =>
    try
      let text ← IO.FS.readFile (systemText place)
      return { tree with files := tree.files ++ [(place, text)] }
    catch _ => return tree

def addNames (tree : FileTree) (path : FilePath) : IO FileTree := do
  let tree ← addDirectories tree path
  match tree.follow? [] path with
  | none => return tree
  | some place =>
    try
      let entries ← ((← IO.currentDir) / systemText place).readDir
      let files := entries.toList.map fun entry => (place ++ [entry.fileName], "")
      return { tree with files := tree.files ++ files }
    catch _ => return tree

def finish (done : CommandLine.Done) (before : FileTree) : IO Unit := do
  for (path, text) in done.files.changedSince before do
    IO.FS.writeFile (systemText path) text
  for line in done.lines do
    IO.println line
  IO.sleep (UInt32.ofNat (done.shown.nanoseconds / 1000000))

def serve (request : CommandLine.Request Float) : IO UInt32 := do
  let directory := FilePath.ofText [] (← IO.currentDir).toString
  let named ← (request.fileTexts.filterMap (FilePath.ofFileText? directory)).foldlM addFile {}
  let files ← (request.listed? ⟨named, directory⟩).toList.foldlM addNames named
  let seed := UInt64.ofNat (← IO.monoNanosNow)
  match request.run seed ⟨files, directory⟩ with
  | .error fault =>
    IO.eprintln fault.message
    return 1
  | .ok done =>
    try
      finish done files
      return 0
    catch fault =>
      IO.eprintln fault.toString
      return 1

end PeerNet

def main (arguments : List String) : IO UInt32 := do
  match PeerNet.CommandLine.Request.ofArguments? arguments with
  | some request => PeerNet.serve request
  | none =>
    IO.eprintln PeerNet.usage
    return 2
