import LineCensus.Discover
import LineCensus.Line

/-!
# The census of a list of paths

Every path is turned into files, no file is counted twice, and what cannot be counted is skipped or
ends the census. Meanwhile events are told; how one is set as a line, with its time, is left to the
logger.
-/

namespace LineCensus

inductive OnFailure
  | skip
  | abort
  deriving DecidableEq, Repr

structure Options where
  filter : Filter
  extensions : Extensions
  /-- The language of every file, whatever its extension. -/
  language : Option Language
  /-- The language of files whose extension says nothing. -/
  fallback : Option Language
  blankInBlock : BlankInBlock
  onFailure : OnFailure

def Options.languageOf? (o : Options) (path : Path) : Option Language :=
  (o.language.or (o.extensions.languageOfPath? path)).or o.fallback

structure Skip where
  path : Path
  reason : Text
  deriving DecidableEq, Repr

structure Census where
  files : List Entry
  total : Entry
  skipped : List Skip
  deriving DecidableEq, Repr

namespace Census

def totalName (files : Nat) : Text :=
  "TOTAL (".toList ++ Text.decimal files ++ " files)".toList

def of? (files : List Entry) (skipped : List Skip) : Option Census :=
  (Entry.total? (totalName files.length) files).map fun total => ⟨files, total, skipped⟩

end Census

def countFile (tree : FileTree) (rules : Rules) (policy : BlankInBlock) (path : Path) :
    Except Stop Entry :=
  match tree.read path with
  | .error obstacle => .error (.failed (.unreadable path obstacle))
  | .ok bytes =>
    match countBytes? rules policy bytes with
    | none => .error .overflow
    | some counts => .ok ⟨Path.shown path, counts⟩

namespace Options

def countFile (o : Options) (tree : FileTree) (path : Path) : Except Stop Entry :=
  match o.languageOf? path with
  | none => .error (.failed (.unknownExtension path))
  | some l => LineCensus.countFile tree l.rules o.blankInBlock path

def discover (o : Options) (tree : FileTree) (path : Path) : Except Failure (List Path) :=
  tree.discover o.filter (fun p => (o.languageOf? p).isSome) path

end Options

/-- Splits results into what was got and what failed, each with its path and in order. With
`abort`, the first failure is all that is left. -/
def settle {α : Type} (policy : OnFailure) (results : List (Path × Except Failure α)) :
    Except Failure (List α × List Skip) :=
  match results with
  | [] => .ok ([], [])
  | (_, .ok a) :: rest => do
    let (got, skipped) ← settle policy rest
    return (a :: got, skipped)
  | (path, .error failure) :: rest =>
    match policy with
    | .abort => .error failure
    | .skip => do
      let (got, skipped) ← settle policy rest
      return (got, ⟨path, failure.message⟩ :: skipped)

/-- A failure stays a result, an overflow ends everything. -/
def withoutOverflow {α : Type} : Except Stop α → Except Stop (Except Failure α)
  | .ok a => .ok (.ok a)
  | .error (.failed failure) => .ok (.error failure)
  | .error .overflow => .error .overflow

/-- The files that paths stand for, each once, and the paths that stand for nothing. -/
def Options.search (o : Options) (tree : FileTree) (paths : List Path) :
    Except Failure (List Path × List Skip) := do
  let (found, skipped) ← settle o.onFailure (paths.map fun p => (p, o.discover tree p))
  return (Path.distinct found.flatten, skipped)

def Options.countFiles (o : Options) (tree : FileTree) (paths : List Path) :
    Except Stop (List Entry × List Skip) := do
  let counted ← paths.mapM fun p => withoutOverflow (o.countFile tree p)
  (settle o.onFailure (paths.zip counted)).mapError Stop.failed

def census (tree : FileTree) (o : Options) (paths : List Path) : Except Stop Census := do
  let (targets, skippedPaths) ← (o.search tree paths).mapError Stop.failed
  let (files, skippedFiles) ← o.countFiles tree targets
  match Census.of? files (skippedPaths ++ skippedFiles) with
  | none => throw .overflow
  | some c => return c

/-! ## Events -/

inductive Event
  | line (file : Text) (number : UInt64) (kind : LineKind) (text : Text)
  | counted (path : Path) (language : Language) (lines : UInt64)
  | discovered (files : Nat)
  | skipping (skip : Skip)
  | finished (files skipped : Nat)
  deriving DecidableEq, Repr

/-- How verbose the log has to be for an event to be told. -/
def Event.verbosity : Event → Nat
  | skipping _ => 0
  | counted _ _ _ | discovered _ | finished _ _ => 1
  | line _ _ _ _ => 2

/-- The events of lines fed one after the other. A counter that goes past its limit ends them. -/
def Tally.events (rules : Rules) (policy : BlankInBlock) (file : Text) :
    Tally → List Text → List Event
  | _, [] => []
  | t, line :: rest =>
    match t.feed? rules policy line with
    | none => []
    | some (kind, next) =>
      .line file next.counts.lines kind line :: Tally.events rules policy file next rest

def countEvents (tree : FileTree) (l : Language) (policy : BlankInBlock) (path : Path) :
    List Event :=
  match tree.read path with
  | .error _ => []
  | .ok bytes =>
    Tally.start.events l.rules policy (Path.shown path) (Bytes.lines bytes) ++
      match countBytes? l.rules policy bytes with
      | none => []
      | some counts => [.counted path l counts.lines]

namespace Options

def countEvents (o : Options) (tree : FileTree) (path : Path) : List Event :=
  (o.languageOf? path).elim [] fun l => LineCensus.countEvents tree l o.blankInBlock path

/-- The events of a census. Files may be counted at the same time; here one follows the other. -/
def events (o : Options) (tree : FileTree) (paths : List Path) : List Event :=
  match o.search tree paths with
  | .error _ => []
  | .ok (targets, skippedPaths) =>
    skippedPaths.map .skipping ++ .discovered targets.length ::
      targets.flatMap (o.countEvents tree) ++
        match o.countFiles tree targets with
        | .error _ => []
        | .ok (_, skippedFiles) => skippedFiles.map .skipping

end Options

end LineCensus
