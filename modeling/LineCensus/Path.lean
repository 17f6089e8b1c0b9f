import LineCensus.Text.Utf8

/-!
# Paths

A path is a string of bytes, which need not be text. Two paths are the same by components when they
differ only in doubled slashes, a slash at the end, or `.` components behind the first place.
-/

namespace LineCensus

abbrev Path := Bytes

namespace Path

abbrev slash : UInt8 := 0x2F

abbrev dot : UInt8 := 0x2E

def ofText (t : Text) : Path :=
  Utf8.encode t

/-- A path as text, with U+FFFD for what is none. -/
def shown (path : Path) : Text :=
  Utf8.decode path

inductive Component
  | root
  | here
  | up
  | name (n : Bytes)
  deriving DecidableEq, Repr

def segments (path : Path) : List Bytes :=
  Text.splitAt slash path

/-- A segment as a component, if it is one wherever it stands. -/
def component? (segment : Bytes) : Option Component :=
  if segment = [] ∨ segment = [dot] then none
  else if segment = [dot, dot] then some .up
  else some (.name segment)

/-- What the first segment adds: a path that starts with a slash is rooted, and only at the start
does `.` count. -/
def start (path : Path) (first : Bytes) : List Component :=
  if path = [] then []
  else if first = [] then [.root]
  else if first = [dot] then [.here]
  else (component? first).toList

def components (path : Path) : List Component :=
  match segments path with
  | [] => []
  | first :: rest => start path first ++ rest.filterMap component?

/-- Components in their order: the root, `.`, `..`, then names byte by byte. -/
def Component.rank : Component → List Nat
  | root => [0]
  | here => [1]
  | up => [2]
  | name n => 3 :: n.map UInt8.toNat

def key (path : Path) : List (List Nat) :=
  (components path).map Component.rank

def before (a b : Path) : Bool :=
  List.lex (key a) (key b) fun x y => List.lex x y Nat.blt

/-- Keeps the first path of those that are equal by components to each other or to one of `seen`. -/
def distinctFrom (seen : List (List Component)) : List Path → List Path
  | [] => []
  | p :: ps =>
    if components p ∈ seen then distinctFrom seen ps
    else p :: distinctFrom (components p :: seen) ps

def distinct (paths : List Path) : List Path :=
  distinctFrom [] paths

def join (directory : Path) (name : Bytes) : Path :=
  if directory = [] ∨ directory.getLast? = some slash then directory ++ name
  else directory ++ slash :: name

/-- The name of what the path leads to, unless it ends in `..` or leads to a root. -/
def fileName? (path : Path) : Option Bytes :=
  match (components path).getLast? with
  | some (.name n) => some n
  | _ => none

/-- The extension of a name: what follows its last dot, unless nothing else comes before that. -/
def nameExtension? (name : Bytes) : Option Bytes :=
  let ending := (name.reverse.takeWhile (· != dot)).reverse
  if name.length ≤ ending.length + 1 then none else some ending

def extension? (path : Path) : Option Bytes :=
  (fileName? path).bind nameExtension?

end Path

end LineCensus
