import LineCensus.Report

/-!
# Arguments

Arguments are strings of bytes. They are first taken apart into items, then the items are added to a
request from left to right. The first thing that is wrong, or that asks for the version or for help,
settles the matter.
-/

namespace LineCensus.CommandLine

inductive Switch
  | recurse
  | strict
  | verbose
  | help
  | version
  deriving DecidableEq, Repr

inductive Setting
  | mode
  | defaultMode
  | included
  | excluded
  | format
  | outputFile
  | blankInBlock
  deriving DecidableEq, Repr

inductive Choice
  | switch (s : Switch)
  | setting (s : Setting)
  deriving DecidableEq, Repr

inductive Item
  | switch (s : Switch)
  | setting (s : Setting) (value : Bytes)
  | path (p : Path)
  | unknown
  deriving DecidableEq, Repr

def longNames : List (String × Choice) :=
  [("recurse", .switch .recurse), ("strict", .switch .strict), ("verbose", .switch .verbose),
    ("help", .switch .help), ("version", .switch .version), ("mode", .setting .mode),
    ("default-mode", .setting .defaultMode), ("include", .setting .included),
    ("exclude", .setting .excluded), ("format", .setting .format),
    ("output-file", .setting .outputFile), ("blank-in-block", .setting .blankInBlock)]

def long? (name : Bytes) : Option Choice :=
  (longNames.find? fun (n, _) => Utf8.encode n.toList = name).map Prod.snd

def shortNames : List (Char × Choice) :=
  [('r', .switch .recurse), ('v', .switch .verbose), ('h', .switch .help),
    ('V', .switch .version), ('m', .setting .mode), ('i', .setting .included),
    ('e', .setting .excluded), ('f', .setting .format), ('o', .setting .outputFile)]

def short? (letter : UInt8) : Option Choice :=
  (shortNames.find? fun (c, _) => Utf8.encodeChar c = [letter]).map Prod.snd

abbrev dash : UInt8 := 0x2D

abbrev equals : UInt8 := 0x3D

/-- What the letters behind one dash say. A setting takes the letters after it as its value, less a
`=` in front; if there are none, its value is the next argument. -/
def letters : Bytes → List Item × Option Setting
  | [] => ([], none)
  | c :: r =>
    match short? c with
    | none => ([.unknown], none)
    | some (.switch s) =>
      let (items, pending) := letters r
      (.switch s :: items, pending)
    | some (.setting s) =>
      if r = [] then ([], some s)
      else ([.setting s (if r.head? = some equals then r.tail else r)], none)

def word (b : Bytes) : List Item × Option Setting :=
  let name := b.takeWhile (· != equals)
  match long? name, b.drop name.length with
  | some (.switch s), [] => ([.switch s], none)
  | some (.setting s), [] => ([], some s)
  | some (.setting s), _ :: value => ([.setting s value], none)
  | _, _ => ([.unknown], none)

/-- A dash alone is a value, and so is what does not start with one. -/
def isValue (argument : Bytes) : Bool :=
  argument.head? != some dash || argument.tail.isEmpty

/-- The items of an argument that is no value, and a setting that is still without one. -/
def argument (a : Bytes) : List Item × Option Setting :=
  if isValue a then ([.path a], none)
  else if a.tail.head? = some dash then word (a.drop 2)
  else letters a.tail

/-- Takes arguments apart; `pending` is a setting that waits for its value. Behind `--` all are
paths. -/
def itemsFrom : Option Setting → List Bytes → List Item
  | none, [] => []
  | some _, [] => [.unknown]
  | some s, a :: rest =>
    if isValue a then .setting s a :: itemsFrom none rest else [.unknown]
  | none, a :: rest =>
    if a = [dash, dash] then rest.map Item.path
    else (argument a).1 ++ itemsFrom (argument a).2 rest

def items (arguments : List Bytes) : List Item :=
  itemsFrom none arguments

structure Request where
  paths : List Path
  recursive : Bool
  strict : Bool
  language : Option Language
  fallback : Option Language
  included : List Text
  excluded : List Text
  format : Option ReportFormat
  output : Option Path
  blankInBlock : Option BlankInBlock
  verbosity : Nat
  deriving DecidableEq, Repr

inductive Command
  | census (request : Request)
  | version
  | help
  | usageError
  deriving DecidableEq, Repr

namespace Request

def empty : Request := ⟨[], false, false, none, none, [], [], none, none, none, 0⟩

def once {α : Type} (old new : Option α) : Except Command (Option α) :=
  if old.isSome || new.isNone then .error .usageError else .ok new

/-- The one of these whose name is the word, in the same case. -/
def spelled? {α : Type} (name : α → Text) (all : List α) (word : Text) : Option α :=
  all.find? fun a => name a = word

def text (value : Bytes) : Except Command Text :=
  (Utf8.text? value).elim (.error .usageError) .ok

/-- Takes a setting. Its value has to be text, unless it is a path. -/
def set (r : Request) (value : Bytes) : Setting → Except Command Request
  | .mode => return { r with language := ← once r.language (Language.named? (← text value)) }
  | .defaultMode => return { r with fallback := ← once r.fallback (Language.named? (← text value)) }
  | .included => return { r with included := r.included ++ [← text value] }
  | .excluded => return { r with excluded := r.excluded ++ [← text value] }
  | .format =>
    return { r with
      format := ← once r.format (spelled? ReportFormat.name ReportFormat.all (← text value)) }
  | .outputFile =>
    return { r with output := ← once r.output (if value.isEmpty then none else some value) }
  | .blankInBlock =>
    return { r with
      blankInBlock :=
        ← once r.blankInBlock (spelled? BlankInBlock.name BlankInBlock.all (← text value)) }

def add (r : Request) : Item → Except Command Request
  | .unknown => .error .usageError
  | .switch .version => .error .version
  | .switch .help => .error .help
  | .switch .verbose => .ok { r with verbosity := r.verbosity + 1 }
  | .switch .recurse => if r.recursive then .error .usageError else .ok { r with recursive := true }
  | .switch .strict => if r.strict then .error .usageError else .ok { r with strict := true }
  | .setting s value => r.set value s
  | .path p => if p.isEmpty then .error .usageError else .ok { r with paths := r.paths ++ [p] }

end Request

def read (arguments : List Bytes) : Command :=
  match (items arguments).foldlM Request.add Request.empty with
  | .error command => command
  | .ok request => if request.paths.isEmpty then .usageError else .census request

end LineCensus.CommandLine
