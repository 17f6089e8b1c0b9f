import LineCensus.Counts
import LineCensus.Rules
import LineCensus.Text.Utf8

/-!
# Lines

One line is classified by the rules of its language and by whether a block comment is open before
it. Everything is looked for in the line with its literals shrunk. A tally goes from line to line.
-/

namespace LineCensus

inductive LineKind
  | blank
  | comment
  | code
  | mixed
  | blockMixed
  deriving DecidableEq, Repr

namespace LineKind

def hasCode : LineKind → Bool
  | code | mixed | blockMixed => true
  | blank | comment => false

def hasComment : LineKind → Bool
  | comment | mixed | blockMixed => true
  | blank | code => false

def counts : LineKind → Counts
  | blank => ⟨0, 0, 1, 1⟩
  | comment => ⟨0, 1, 0, 1⟩
  | code => ⟨1, 0, 0, 1⟩
  | mixed | blockMixed => ⟨1, 1, 0, 1⟩

end LineKind

inductive BlankInBlock
  | blank
  | comment
  deriving DecidableEq, Repr

namespace BlankInBlock

def all : List BlankInBlock := [blank, comment]

def name : BlankInBlock → Text
  | blank => "blank".toList
  | comment => "comment".toList

def named (word : Text) : Except Failure BlankInBlock :=
  match all.find? fun p => p.name = Text.lowercase word with
  | some p => .ok p
  | none => .error (.unknownPolicy word)

end BlankInBlock

namespace Rules

/-- The kind of a line that no block comment reaches or touches. -/
def plainKind (rules : Rules) (t : Text) : LineKind :=
  if Text.blank t then .blank
  else if rules.onlyComment t then .comment
  else if rules.someComment t then .mixed
  else .code

def kindOutside (rules : Rules) (t : Text) : LineKind × Bool :=
  match rules.block with
  | none => (rules.plainKind t, false)
  | some block =>
    match block.opened t with
    | none => (rules.plainKind t, false)
    | some rest => (if block.codeBefore t then .blockMixed else .comment, !block.closes rest)

def kindWithin (policy : BlankInBlock) (t : Text) : LineKind :=
  if policy = .blank && Text.blank t then .blank else .comment

def kindInside (rules : Rules) (policy : BlankInBlock) (t : Text) : LineKind × Bool :=
  match rules.block with
  | none => (kindWithin policy t, true)
  | some block =>
    if block.codeBehind t then (.blockMixed, false)
    else if block.closes t then (.comment, false)
    else (kindWithin policy t, true)

/-- The kind of a line, and whether a block comment is open behind it. -/
def classify (rules : Rules) (policy : BlankInBlock) (inside : Bool) (line : Text) :
    LineKind × Bool :=
  let t := rules.stripper.strip line
  if inside then rules.kindInside policy t else rules.kindOutside t

end Rules

/-! ## Tallies -/

structure Tally where
  counts : Counts
  inside : Bool
  deriving DecidableEq, Repr

namespace Tally

def start : Tally := ⟨Counts.zero, false⟩

def feed? (rules : Rules) (policy : BlankInBlock) (t : Tally) (line : Text) :
    Option (LineKind × Tally) := do
  let (kind, inside) := rules.classify policy t.inside line
  let counts ← t.counts.add? kind.counts
  return (kind, ⟨counts, inside⟩)

def feedAll? (rules : Rules) (policy : BlankInBlock) (t : Tally) (lines : List Text) :
    Option Tally :=
  lines.foldlM (fun t line => (feed? rules policy t line).map Prod.snd) t

end Tally

def countLines? (rules : Rules) (policy : BlankInBlock) (lines : List Text) : Option Counts :=
  (Tally.start.feedAll? rules policy lines).map Tally.counts

def countText? (rules : Rules) (policy : BlankInBlock) (t : Text) : Option Counts :=
  countLines? rules policy (Text.lines t)

def countBytes? (rules : Rules) (policy : BlankInBlock) (bytes : Bytes) : Option Counts :=
  countLines? rules policy (Bytes.lines bytes)

end LineCensus
