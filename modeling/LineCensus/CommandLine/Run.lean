import LineCensus.CommandLine.Arguments
import LineCensus.Census

/-!
# Running a command

Nothing is written before the whole report is there.
-/

namespace LineCensus.CommandLine

namespace Request

def options (r : Request) : Except Failure Options := do
  let filter ← Filter.read r.included r.excluded r.recursive
  return ⟨filter, Extensions.standard, r.language, r.fallback, r.blankInBlock.getD .blank,
    if r.strict then .abort else .skip⟩

def census (r : Request) (tree : FileTree) : Except Stop Census := do
  let options ← r.options.mapError Stop.failed
  LineCensus.census tree options r.paths

end Request

def Request.events (r : Request) (tree : FileTree) : List Event :=
  match r.options with
  | .error _ => []
  | .ok options => options.events tree r.paths

/-- What a run finds set up around it: whether its output is in bold type, and which events are
logged, if that is left to others than the request. -/
structure Surroundings where
  bold : Bool
  logged : Option (Event → Bool)

def Surroundings.logs (s : Surroundings) (verbosity : Nat) (e : Event) : Bool :=
  match s.logged with
  | some logged => logged e
  | none => e.verbosity ≤ verbosity

inductive Notice
  | said (line : Text)
  | logged (event : Event)
  deriving DecidableEq, Repr

def Notice.line? : Notice → Option Text
  | said line => some line
  | logged _ => none

structure Outcome where
  code : Nat
  out : Text
  err : List Notice
  tree : FileTree

/-- The standard error without the log. -/
def Outcome.said (o : Outcome) : List Text :=
  o.err.filterMap Notice.line?

def errorLine (failure : Failure) : Text :=
  "Error: ".toList ++ failure.account ++ ['\n']

def skipLine (s : Skip) : Text :=
  "Skipped ".toList ++ Path.shown s.path ++ ": ".toList ++ s.reason ++ ['\n']

/-- A census that counted nothing although it was given something is a failure. -/
def exitCode (c : Census) : Nat :=
  if c.files.isEmpty && !c.skipped.isEmpty then 1 else 0

def fail (tree : FileTree) (told : List Notice) (failure : Failure) : Outcome :=
  ⟨1, [], told ++ [.said (errorLine failure)], tree⟩

/-- Hands over a report, on the standard output or in a file. -/
def deliver (tree : FileTree) (told : List Notice) (c : Census) (report : Text)
    (output : Option Path) : Outcome :=
  match output with
  | none => ⟨exitCode c, report, told, tree⟩
  | some path =>
    match tree.write path (Utf8.encode report) with
    | .error obstacle => fail tree told (.unwritable path obstacle)
    | .ok tree => ⟨exitCode c, [], told, tree⟩

namespace Request

def log (r : Request) (s : Surroundings) (events : List Event) : List Notice :=
  (events.filter (s.logs r.verbosity)).map .logged

def told (r : Request) (s : Surroundings) (tree : FileTree) (c : Census) : List Notice :=
  r.log s (r.events tree ++ [.finished c.files.length c.skipped.length]) ++
    c.skipped.map fun skip => .said (skipLine skip)

def run (r : Request) (s : Surroundings) (tree : FileTree) : Outcome :=
  match r.census tree with
  | .error (.failed failure) => fail tree (r.log s (r.events tree)) failure
  | .error .overflow => ⟨101, [], r.log s (r.events tree), tree⟩
  | .ok c =>
    match c.report s.bold (r.format.getD .text) with
    | .error failure => fail tree (r.told s tree c) failure
    | .ok report => deliver tree (r.told s tree c) c report r.output

end Request

def versionLine : Text :=
  "countloc 0.5.0\n".toList

def usage : Text :=
  ("Usage: countloc [OPTIONS] PATH...\n\n" ++
    "  -r, --recurse                  descend into directories\n" ++
    "  -m, --mode LANG                language of every file\n" ++
    "      --default-mode LANG        language of files with an unknown extension\n" ++
    "  -i, --include GLOB             take only files that fit a glob\n" ++
    "  -e, --exclude GLOB             leave out files that fit a glob\n" ++
    "  -f, --format FORMAT            text, csv, html or json\n" ++
    "  -o, --output-file FILE         write the report to a file\n" ++
    "      --strict                   stop at the first file that cannot be counted\n" ++
    "  -v, --verbose                  log more, once or twice\n" ++
    "      --blank-in-block POLICY    blank or comment\n").toList

def usageCode : Nat := 2

def run (s : Surroundings) (tree : FileTree) : Command → Outcome
  | .census request => request.run s tree
  | .version => ⟨0, versionLine, [], tree⟩
  | .help => ⟨0, usage, [], tree⟩
  | .usageError => ⟨usageCode, [], [.said usage], tree⟩

end LineCensus.CommandLine
