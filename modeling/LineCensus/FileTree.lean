import LineCensus.Failure
import LineCensus.Path

/-!
# File trees

A tree is a list of its nodes by location, and a working directory. The root is a directory that is
always there.

A path is followed step by step to the node it leads to. Each step has to start in a directory; links
are followed wherever they stand, the last place included, but only forty of them.
-/

namespace LineCensus

structure Name where
  bytes : Bytes
  nonempty : bytes ≠ []
  noSlash : Path.slash ∉ bytes
  notHere : bytes ≠ [Path.dot]
  notUp : bytes ≠ [Path.dot, Path.dot]
  deriving DecidableEq, Repr

namespace Name

def ofBytes? (b : Bytes) : Option Name :=
  if h : b ≠ [] ∧ Path.slash ∉ b ∧ b ≠ [Path.dot] ∧ b ≠ [Path.dot, Path.dot] then
    some ⟨b, h.1, h.2.1, h.2.2.1, h.2.2.2⟩
  else none

def ofText (t : Text) (h : (ofBytes? (Path.ofText t)).isSome = true) : Name :=
  (ofBytes? (Path.ofText t)).get h

/-- Whether a walk takes the name for a hidden one. A name that is no text counts as empty. -/
def hidden (n : Name) : Bool :=
  ((Utf8.text? n.bytes).getD []).head? = some '.'

end Name

/-- Where a node is: its name, the name of its directory, and so on up to the root. -/
abbrev Location := List Name

structure File where
  content : Bytes
  readable : Bool
  deriving DecidableEq, Repr

inductive Node
  | file (f : File)
  | directory
  | link (target : Path)
  /-- Something else that can be opened: it reads as empty and keeps nothing. -/
  | device
  deriving DecidableEq, Repr

structure FileTree where
  nodes : List (Location × Node)
  here : Location
  nodup : (nodes.map Prod.fst).Nodup

namespace FileTree

def empty : FileTree := ⟨[], [], List.nodup_nil⟩

def node? (tree : FileTree) (place : Location) : Option Node :=
  if place = [] then some .directory else tree.nodes.lookup place

def put (tree : FileTree) (place : Location) (node : Node) : FileTree where
  nodes := (place, node) :: tree.nodes.filter (·.1 ≠ place)
  here := tree.here
  nodup := by
    rw [List.map_cons, List.nodup_cons]
    refine ⟨by simp, ?_⟩
    exact tree.nodup.sublist (List.filter_sublist.map Prod.fst)

def names (tree : FileTree) (directory : Location) : List Name :=
  tree.nodes.filterMap fun (place, _) =>
    match place with
    | [] => none
    | n :: parent => if parent = directory then some n else none

def isDirectory (tree : FileTree) (place : Location) : Bool :=
  match tree.node? place with
  | some .directory => true
  | _ => false

def isLink (tree : FileTree) (place : Location) : Bool :=
  match tree.node? place with
  | some (.link _) => true
  | _ => false

/-! ## The node a path leads to -/

inductive Step
  | here
  | up
  | name (n : Name)
  /-- The slash at the end of a path: what comes before it has to be a directory. -/
  | slash
  deriving DecidableEq, Repr

def Step.ofSegment? (segment : Bytes) : Option Step :=
  if segment = [Path.dot] then some .here
  else if segment = [Path.dot, Path.dot] then some .up
  else (Name.ofBytes? segment).map Step.name

def steps (path : Path) : List Step :=
  (Path.segments path).filterMap Step.ofSegment? ++
    if path.getLast? = some Path.slash then [.slash] else []

def origin (directory : Location) (path : Path) : Location :=
  if path.head? = some Path.slash then [] else directory

/-- Where a walk along steps halts: at its end, at a link with steps to go, or at an obstacle. -/
inductive Halt
  | arrived (place : Location)
  | atLink (directory : Location) (target : Path) (rest : List Step)
  | blocked (obstacle : Obstacle)
  deriving DecidableEq, Repr

/-- Walks from a place to the first link. If `creating`, the last name need not be there yet, but no
slash may follow it. -/
def walk (tree : FileTree) (creating : Bool) (place : Location) : List Step → Halt
  | [] => .arrived place
  | step :: rest =>
    if !tree.isDirectory place then .blocked .notDirectory
    else
      match step with
      | .here | .slash => tree.walk creating place rest
      | .up => tree.walk creating place.tail rest
      | .name n =>
        if creating && rest = [.slash] then .blocked .isDirectory
        else if 255 < n.bytes.length then .blocked .nameTooLong
        else
          match tree.node? (n :: place) with
          | none => if creating && rest.isEmpty then .arrived (n :: place) else .blocked .notFound
          | some (.link target) => .atLink place target rest
          | some _ => tree.walk creating (n :: place) rest

/-- Walks to the end, through at most `links` links. -/
def follow (tree : FileTree) (creating : Bool) : Nat → Location → List Step →
    Except Obstacle Location
  | links, place, path =>
    match tree.walk creating place path with
    | .arrived place => .ok place
    | .blocked obstacle => .error obstacle
    | .atLink directory target rest =>
      match links with
      | 0 => .error .tooManyLinks
      | links + 1 => tree.follow creating links (origin directory target) (steps target ++ rest)

def linkLimit : Nat := 40

def pathLimit : Nat := 4096

def locate (tree : FileTree) (creating : Bool) (path : Path) : Except Obstacle Location :=
  if path.contains 0 then .error .containsNul
  else if path = [] then .error .notFound
  else if pathLimit ≤ path.length then .error .nameTooLong
  else follow tree creating linkLimit (origin tree.here path) (steps path)

def resolve (tree : FileTree) (path : Path) : Except Obstacle Location :=
  tree.locate false path

theorem locate_eq_ok_iff {tree : FileTree} {creating : Bool} {path : Path} {place : Location} :
    tree.locate creating path = .ok place ↔
      (0 ∉ path ∧ path ≠ [] ∧ path.length < pathLimit) ∧
        tree.follow creating linkLimit (origin tree.here path) (steps path) = .ok place := by
  unfold locate
  by_cases hnul : 0 ∈ path
  · simp [hnul]
  · by_cases hempty : path = []
    · simp [hempty]
    · by_cases hlong : pathLimit ≤ path.length
      · simp [hnul, hempty, hlong, Nat.not_lt.mpr hlong]
      · simp [hnul, hempty, hlong, Nat.lt_of_not_le hlong]

theorem length_lt_of_resolve {tree : FileTree} {path : Path} {place : Location}
    (h : tree.resolve path = .ok place) : path.length < pathLimit :=
  (locate_eq_ok_iff.mp h).1.2.2

def node (tree : FileTree) (path : Path) : Except Obstacle Node :=
  match tree.resolve path with
  | .error obstacle => .error obstacle
  | .ok place => (tree.node? place).elim (.error .notFound) .ok

def read (tree : FileTree) (path : Path) : Except Obstacle Bytes :=
  match tree.node path with
  | .error obstacle => .error obstacle
  | .ok (.file f) => if f.readable then .ok f.content else .error .permissionDenied
  | .ok .device => .ok []
  | .ok .directory => .error .isDirectory
  | .ok (.link _) => .error .tooManyLinks

def write (tree : FileTree) (path : Path) (content : Bytes) : Except Obstacle FileTree :=
  match tree.locate true path with
  | .error obstacle => .error obstacle
  | .ok place =>
    match tree.node? place with
    | some .directory => .error .isDirectory
    | some .device => .ok tree
    | some (.file f) => .ok (tree.put place (.file ⟨content, f.readable⟩))
    | _ => .ok (tree.put place (.file ⟨content, true⟩))

end FileTree

end LineCensus
