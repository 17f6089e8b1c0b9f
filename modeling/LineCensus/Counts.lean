import LineCensus.Text.Basic

/-!
# Counts

Four counters of 64 bits. They never wrap: a sum that does not fit is no sum.
-/

namespace LineCensus

/-- A line that holds code and a comment counts in both columns but is one line. -/
structure Counts where
  code : UInt64
  comments : UInt64
  blank : UInt64
  lines : UInt64
  deriving DecidableEq, Repr

namespace Counts

def zero : Counts := ⟨0, 0, 0, 0⟩

inductive Column
  | code
  | comments
  | blank
  | lines
  deriving DecidableEq, Repr

def get (c : Counts) : Column → Nat
  | .code => c.code.toNat
  | .comments => c.comments.toNat
  | .blank => c.blank.toNat
  | .lines => c.lines.toNat

def addCounter? (a b : UInt64) : Option UInt64 :=
  if a.toNat + b.toNat < UInt64.size then some (a + b) else none

def add? (a b : Counts) : Option Counts := do
  let code ← addCounter? a.code b.code
  let comments ← addCounter? a.comments b.comments
  let blank ← addCounter? a.blank b.blank
  let lines ← addCounter? a.lines b.lines
  return ⟨code, comments, blank, lines⟩

def addAll? (start : Counts) (items : List Counts) : Option Counts :=
  items.foldlM add? start

def sum? (items : List Counts) : Option Counts :=
  addAll? zero items

end Counts

structure Entry where
  name : Text
  counts : Counts
  deriving DecidableEq, Repr

namespace Entry

def merge? (a b : Entry) (name : Text) : Option Entry :=
  (a.counts.add? b.counts).map (Entry.mk name)

def total? (name : Text) (items : List Entry) : Option Entry :=
  (Counts.sum? (items.map Entry.counts)).map (Entry.mk name)

/-- One line of text: the name in 40 columns and each counter in eight. -/
def summary (e : Entry) : Text :=
  let counter := fun (n : UInt64) => ' ' :: Text.padLeft 8 (Text.decimal n.toNat)
  Text.padRight 40 e.name ++ counter e.counts.code ++ counter e.counts.comments ++
    counter e.counts.blank ++ counter e.counts.lines

end Entry

end LineCensus
