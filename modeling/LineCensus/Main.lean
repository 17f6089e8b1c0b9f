import LineCensus.CommandLine.Run

/-!
# The program

A command runs on a tree of the files that it may need. These are the ones its arguments name and,
if one of them is a directory, the ones named on the standard input, one a line. The disk is changed
only where the run has changed the tree.
-/

namespace LineCensus.Program

def directoryError : UInt32 := 21

/-- A path as the system library takes it. -/
def spelled (path : Path) : String :=
  String.ofList (Path.shown path)

def load (path : Path) : IO (Option Node) := do
  try
    return some (.file ⟨(← IO.FS.readBinFile (spelled path)).toList, true⟩)
  catch
    | .inappropriateType _ code _ => return if code = directoryError then some .directory else none
    | .permissionDenied _ _ _ => return some (.file ⟨[], false⟩)
    | _ => return none

def move (place : Location) (segment : Bytes) : Location :=
  match FileTree.Step.ofSegment? segment with
  | some (.name n) => n :: place
  | some .up => place.tail
  | _ => place

def locationOf (here : Location) (path : Path) : Location :=
  (Path.segments path).foldl move (FileTree.origin here path)

def place (tree : FileTree) (node : Node) : Location → FileTree
  | [] => tree
  | n :: parent =>
    if (tree.node? (n :: parent)).isSome then tree
    else (place tree .directory parent).put (n :: parent) node

def add (tree : FileTree) (path : Path) : IO FileTree := do
  match ← load path with
  | none => return tree
  | some node => return place tree node (locationOf tree.here path)

partial def listed (input : IO.FS.Stream) (names : List Path) : IO (List Path) := do
  let line ← input.getLine
  if line.isEmpty then return names.reverse
  listed input (Path.ofText (Text.withoutBreak line.toList) :: names)

def directoryOf (path : Path) : Path :=
  match (path.reverse.dropWhile (· != Path.slash)).reverse with
  | [] => [Path.dot]
  | directory => directory

def treeFor (request : CommandLine.Request) : IO FileTree := do
  let here := locationOf [] (Path.ofText ((← IO.getEnv "PWD").getD "").toList)
  let start := place { FileTree.empty with here := here } .directory here
  let output := request.output.toList
  let tree ← (request.paths ++ output ++ output.map directoryOf).foldlM add start
  let isDirectory := fun path => (tree.resolve path).toOption.any tree.isDirectory
  if request.paths.any isDirectory then
    (← listed (← IO.getStdin) []).foldlM add tree
  else return tree

def content? (tree : FileTree) (path : Path) : Option Bytes :=
  match tree.node path with
  | .ok (.file f) => some f.content
  | _ => none

/-- Writes the file at a path as the run has left it, if the run has changed it. -/
def save (before after : FileTree) (path : Path) : IO Unit := do
  if let some content := content? after path then
    if content? before path ≠ some content then
      IO.FS.writeBinFile (spelled path) ⟨content.toArray⟩

def outputs : CommandLine.Command → List Path
  | .census request => request.output.toList
  | _ => []

def treeNeeded : CommandLine.Command → IO FileTree
  | .census request => treeFor request
  | _ => return FileTree.empty

end LineCensus.Program

open LineCensus Program in
def main (arguments : List String) : IO UInt32 := do
  let command := CommandLine.read (arguments.map fun a => Path.ofText a.toList)
  let tree ← treeNeeded command
  let outcome := CommandLine.run ⟨← (← IO.getStdout).isTty, none⟩ tree command
  IO.print (String.ofList outcome.out)
  outcome.said.forM fun line => IO.eprint (String.ofList line)
  (outputs command).forM (save tree outcome.tree)
  return UInt32.ofNat outcome.code
