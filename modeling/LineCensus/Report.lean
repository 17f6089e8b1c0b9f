import LineCensus.Table

/-!
# Reports

A report shows the table of a census or, in JSON, the census itself.
-/

namespace LineCensus

/-! ## JSON -/

inductive Json
  | number (n : Nat)
  | string (t : Text)
  | array (items : List Json)
  | object (fields : List (Text × Json))

namespace Json

def hexDigit (n : Nat) : Char :=
  if n < 10 then Char.ofNat ('0'.toNat + n) else Char.ofNat ('a'.toNat + (n - 10))

def escape (c : Char) : Text :=
  if c = '"' then "\\\"".toList
  else if c = '\\' then "\\\\".toList
  else if c = '\x08' then "\\b".toList
  else if c = '\t' then "\\t".toList
  else if c = '\n' then "\\n".toList
  else if c = '\x0c' then "\\f".toList
  else if c = '\r' then "\\r".toList
  else if c.toNat < 0x20 then "\\u00".toList ++ [hexDigit (c.toNat / 16), hexDigit (c.toNat % 16)]
  else [c]

def quoted (t : Text) : Text :=
  '"' :: t.flatMap escape ++ ['"']

/-- A new line, indented by two spaces for each level. -/
def newLine (depth : Nat) : Text :=
  '\n' :: List.replicate (2 * depth) ' '

mutual

/-- A value on lines of its own below `depth` levels; lists and objects without content stay on one
line. -/
def pretty (depth : Nat) : Json → Text
  | number n => Text.decimal n
  | string t => quoted t
  | array [] => "[]".toList
  | array (item :: items) =>
    '[' :: newLine (depth + 1) ++ pretty (depth + 1) item ++ prettyItems (depth + 1) items ++
      newLine depth ++ [']']
  | object [] => ['\x7b', '\x7d']
  | object (field :: fields) =>
    '\x7b' :: newLine (depth + 1) ++ prettyField (depth + 1) field ++
      prettyFields (depth + 1) fields ++ newLine depth ++ ['\x7d']

def prettyField (depth : Nat) : Text × Json → Text
  | (name, value) => quoted name ++ ':' :: ' ' :: pretty depth value

def prettyItems (depth : Nat) : List Json → Text
  | [] => []
  | item :: items => ',' :: newLine depth ++ pretty depth item ++ prettyItems depth items

def prettyFields (depth : Nat) : List (Text × Json) → Text
  | [] => []
  | field :: fields => ',' :: newLine depth ++ prettyField depth field ++ prettyFields depth fields

end

end Json

def Counts.json (c : Counts) : Json :=
  .object [("code".toList, .number c.code.toNat), ("comments".toList, .number c.comments.toNat),
    ("blank".toList, .number c.blank.toNat), ("lines".toList, .number c.lines.toNat)]

def Entry.json (e : Entry) : Json :=
  .object [("name".toList, .string e.name), ("counts".toList, e.counts.json)]

/-- Only a path that is text can be written down. -/
def Skip.json (s : Skip) : Except Failure Json :=
  match Utf8.text? s.path with
  | none => .error .pathNotText
  | some path =>
    .ok (.object [("path".toList, .string path), ("reason".toList, .string s.reason)])

def Census.json (c : Census) : Except Failure Json := do
  let skipped ← c.skipped.mapM Skip.json
  return .object [("files".toList, .array (c.files.map Entry.json)), ("total".toList, c.total.json),
    ("skipped".toList, .array skipped)]

/-! ## Formats -/

inductive ReportFormat
  | text
  | csv
  | html
  | json
  deriving DecidableEq, Repr

namespace ReportFormat

def all : List ReportFormat := [text, csv, html, json]

def name : ReportFormat → Text
  | text => "text".toList
  | csv => "csv".toList
  | html => "html".toList
  | json => "json".toList

def named (word : Text) : Except Failure ReportFormat :=
  match all.find? fun f => f.name = Text.lowercase word with
  | some f => .ok f
  | none => .error (.unknownFormat word)

end ReportFormat

namespace Table

/-- A table as a report. JSON reports show more than a table. -/
def report? (t : Table) (bold : Bool) : ReportFormat → Option Text
  | .text => t.aligned? bold
  | .csv => some t.csv
  | .html => some t.html
  | .json => none

end Table

def Census.report (c : Census) (bold : Bool) : ReportFormat → Except Failure Text
  | .text => .ok (c.table.aligned bold)
  | .csv => .ok c.table.csv
  | .html => .ok c.table.html
  | .json => return (← c.json).pretty 0 ++ ['\n']

theorem Census.exists_report_table (c : Census) (bold : Bool) {format : ReportFormat}
    (h : format ≠ .json) :
    ∃ out, c.table.report? bold format = some out ∧ c.report bold format = .ok out := by
  cases format with
  | text => exact ⟨_, if_pos c.isAlignable_table, rfl⟩
  | csv => exact ⟨_, rfl, rfl⟩
  | html => exact ⟨_, rfl, rfl⟩
  | json => exact absurd rfl h

end LineCensus
