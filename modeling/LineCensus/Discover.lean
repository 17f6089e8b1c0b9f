import LineCensus.FileTree

/-!
# Discovering files

A path that leads to a file is taken as it is. A directory is walked; directories with a hidden name
are left out, and so are links to a directory the walk is in.
-/

namespace LineCensus

/-- Which files a walk takes: none that fits a glob of `excluded`, and unless `included` is empty
only those that fit one of it. -/
structure Filter where
  included : List Glob
  excluded : List Glob
  recursive : Bool
  deriving DecidableEq, Repr

namespace Filter

def readGlob (pattern : Text) : Except Failure Glob :=
  (Glob.read pattern).mapError (Failure.badGlob pattern)

def read (included excluded : List Text) (recursive : Bool) : Except Failure Filter := do
  let included ← included.mapM readGlob
  let excluded ← excluded.mapM readGlob
  return ⟨included, excluded, recursive⟩

def admits (f : Filter) (path : Path) : Bool :=
  let t := Path.shown path
  !f.excluded.any (·.fits t) && (f.included.isEmpty || f.included.any (·.fits t))

end Filter

namespace FileTree

/-- The files at most `levels` levels down from the directory at `place`, which `path` leads to;
`above` are the directories that the walk went through to it. -/
def filesBelow (tree : FileTree) : Nat → List Location → Path → Location → List Path
  | 0, _, _, _ => []
  | levels + 1, above, path, place =>
    (tree.names place).flatMap fun n =>
      let child := Path.join path n.bytes
      match tree.resolve child with
      | .error _ => []
      | .ok target =>
        match tree.node? target with
        | some (.file _) => [child]
        | some .directory =>
          if n.hidden || (tree.isLink (n :: place) && (place :: above).contains target) then []
          else tree.filesBelow levels (place :: above) child target
        | _ => []

theorem length_lt_length_join (path : Path) (n : Name) :
    path.length < (Path.join path n.bytes).length := by
  have := List.length_pos_iff.mpr n.nonempty
  unfold Path.join
  split
  · rw [List.length_append]; omega
  · rw [List.length_append, List.length_cons]; omega

/-- How far down a walk goes. No path leads further down than it has bytes. -/
def levels (recursive : Bool) : Nat :=
  if recursive then pathLimit else 1

/-- The files a path stands for, in order. Those found by walking have to satisfy `accept`. -/
def discover (tree : FileTree) (filter : Filter) (accept : Path → Bool) (path : Path) :
    Except Failure (List Path) :=
  match tree.resolve path with
  | .error _ => .error (.missing path)
  | .ok place =>
    match tree.node? place with
    | some (.file _) => .ok (if filter.admits path then [path] else [])
    | some .directory =>
      let found := tree.filesBelow (levels filter.recursive) [] path place
      .ok ((found.filter fun p => filter.admits p && accept p).mergeSort
        fun p q => !Path.before q p)
    | _ => .ok []

end FileTree

end LineCensus
