import LineCensus.CommandLine.Run
import LineCensus.Proofs.Accounting
import LineCensus.Proofs.JsonReading
import LineCensus.Proofs.Writing

/-!
# Delivering a report

A command that fails leaves every file as it was, the one for its report included. One that does not
tells the same with and without such a file; with one, the report is in the file and nowhere else
(`run_census`). Whatever the log lets through stands before the lines of the command itself.
-/

namespace LineCensus.CommandLine

/-! ## Requests with a file for the report -/

/-- The second arguments say what the first say and name a file for the report besides. -/
def AddsOutput (path : Path) (arguments arguments' : List Bytes) : Prop :=
  ∃ before after, items arguments = before ++ after ∧
    items arguments' = before ++ .setting .outputFile path :: after

/-- The setting that waits for its value behind arguments, unless one of them is unfit to be a value
or makes all that follow it paths. -/
def pendingAfter : Option Setting → List Bytes → Option (Option Setting)
  | pending, [] => some pending
  | some _, a :: rest => if isValue a then pendingAfter none rest else none
  | none, a :: rest => if a = [dash, dash] then none else pendingAfter (argument a).2 rest

theorem itemsFrom_append {pending : Option Setting} {first : List Bytes}
    (h : pendingAfter pending first = some none) (rest : List Bytes) :
    itemsFrom pending (first ++ rest) = itemsFrom pending first ++ itemsFrom none rest := by
  induction first generalizing pending with
  | nil =>
    cases h
    rfl
  | cons a first ih =>
    cases pending with
    | some s =>
      by_cases hv : isValue a = true
      · rw [pendingAfter, if_pos hv] at h
        rw [List.cons_append, itemsFrom, if_pos hv, itemsFrom, if_pos hv, ih h, List.cons_append]
      · rw [pendingAfter, if_neg hv] at h
        cases h
    | none =>
      by_cases hd : a = [dash, dash]
      · rw [pendingAfter, if_pos hd] at h
        cases h
      · rw [pendingAfter, if_neg hd] at h
        rw [List.cons_append, itemsFrom, if_neg hd, itemsFrom, if_neg hd, ih h, List.append_assoc]

/-- The file may be named between any two arguments, in each of the ways there are. -/
theorem addsOutput_insert {path : Path} (first named second : List Bytes)
    (hf : pendingAfter none first = some none) (hn : pendingAfter none named = some none)
    (hi : items named = [.setting .outputFile path]) :
    AddsOutput path (first ++ second) (first ++ (named ++ second)) := by
  refine ⟨items first, items second, itemsFrom_append hf second, ?_⟩
  unfold items at hi
  rw [items, itemsFrom_append hf, itemsFrom_append hn, hi]
  rfl

section
variable {r r' : Request} (path : Path)

theorem exists_of_bind {α β ε : Type} {e : Except ε α} {f : α → Except ε β} {b : β}
    (h : e.bind f = .ok b) : ∃ a, e = .ok a ∧ f a = .ok b := by
  cases e with
  | error error => cases h
  | ok a => exact ⟨a, rfl, h⟩

theorem once_ne_none {α : Type} {old new : Option α} : Request.once old new ≠ .ok none := by
  unfold Request.once
  cases old with
  | some a => nofun
  | none =>
    cases new with
    | none => nofun
    | some a => nofun

/-- No setting but that of the file for the report depends on it, and that can be set once. -/
theorem set_output {value : Bytes} {s : Setting} (h : r.set value s = .ok r')
    (ho : r'.output = none) : r.output = none ∧
      { r with output := some path }.set value s = .ok { r' with output := some path } := by
  cases s with
  | included | excluded =>
    obtain ⟨t, ht, hr⟩ := exists_of_bind h
    cases hr
    exact ⟨ho, by rw [Request.set, ht]; rfl⟩
  | mode | defaultMode | format | blankInBlock =>
    obtain ⟨t, ht, h⟩ := exists_of_bind h
    obtain ⟨v, hv, hr⟩ := exists_of_bind h
    cases hr
    refine ⟨ho, ?_⟩
    rw [Request.set, ht]
    dsimp only [bind, Except.bind]
    rw [hv]
    rfl
  | outputFile =>
    obtain ⟨v, hv, hr⟩ := exists_of_bind h
    cases hr
    have hnone : v = none := ho
    exact absurd (hnone ▸ hv) once_ne_none

theorem add_output {item : Item} (h : r.add item = .ok r') (ho : r'.output = none) :
    r.output = none ∧
      { r with output := some path }.add item = .ok { r' with output := some path } := by
  cases item with
  | unknown => cases h
  | setting s value => exact set_output path h ho
  | path p =>
    by_cases hp : p.isEmpty = true
    · rw [Request.add, if_pos hp] at h; cases h
    · rw [Request.add, if_neg hp] at h
      cases h
      exact ⟨ho, if_neg hp⟩
  | switch s =>
    cases s with
    | version | help => cases h
    | verbose => cases h; exact ⟨ho, rfl⟩
    | recurse =>
      by_cases hr : r.recursive = true
      · rw [Request.add, if_pos hr] at h; cases h
      · rw [Request.add, if_neg hr] at h
        cases h
        exact ⟨ho, if_neg hr⟩
    | strict =>
      by_cases hs : r.strict = true
      · rw [Request.add, if_pos hs] at h; cases h
      · rw [Request.add, if_neg hs] at h
        cases h
        exact ⟨ho, if_neg hs⟩

theorem foldlM_add_output {l : List Item} (h : l.foldlM Request.add r = .ok r')
    (ho : r'.output = none) :
    r.output = none ∧
      l.foldlM Request.add { r with output := some path } =
        .ok { r' with output := some path } := by
  induction l generalizing r with
  | nil =>
    cases h
    exact ⟨ho, rfl⟩
  | cons item l ih =>
    rw [List.foldlM_cons] at h ⊢
    cases ha : r.add item with
    | error command => rw [ha] at h; cases h
    | ok r₁ =>
      rw [ha] at h
      obtain ⟨ho₁, hl⟩ := ih h
      obtain ⟨ho, hi⟩ := add_output path ha ho₁
      rw [hi]
      exact ⟨ho, hl⟩

theorem ne_census_of_once {α : Type} {old new : Option α} {command : Command}
    (h : Request.once old new = .error command) : command ≠ .census r' := by
  unfold Request.once at h
  split at h
  · cases h; nofun
  · cases h

theorem ne_census_of_text {value : Bytes} {command : Command}
    (h : Request.text value = .error command) : command ≠ .census r' := by
  unfold Request.text at h
  cases ht : Utf8.text? value with
  | none => rw [ht] at h; cases h; nofun
  | some t => rw [ht] at h; cases h

theorem eq_error_or_of_bind {α β ε : Type} {e : Except ε α} {f : α → Except ε β} {error : ε}
    (h : e.bind f = .error error) : e = .error error ∨ ∃ a, f a = .error error := by
  cases e with
  | error error' =>
    cases h
    exact Or.inl rfl
  | ok a => exact Or.inr ⟨a, h⟩

theorem ne_census_of_set {value : Bytes} {s : Setting} {command : Command}
    (h : r.set value s = .error command) : command ≠ .census r' := by
  cases s with
  | included | excluded =>
    rcases eq_error_or_of_bind h with h | ⟨t, h⟩
    · exact ne_census_of_text h
    · cases h
  | mode | defaultMode | format | blankInBlock =>
    rcases eq_error_or_of_bind h with h | ⟨t, h⟩
    · exact ne_census_of_text h
    · rcases eq_error_or_of_bind h with h | ⟨v, h⟩
      · exact ne_census_of_once h
      · cases h
  | outputFile =>
    rcases eq_error_or_of_bind h with h | ⟨v, h⟩
    · exact ne_census_of_once h
    · cases h

theorem ne_census_of_add {item : Item} {command : Command} (h : r.add item = .error command) :
    command ≠ .census r' := by
  cases item with
  | unknown => cases h; nofun
  | setting s value => exact ne_census_of_set h
  | path p =>
    rw [Request.add] at h
    split at h
    · cases h; nofun
    · cases h
  | switch s =>
    cases s with
    | version | help => cases h; nofun
    | verbose => cases h
    | recurse | strict =>
      rw [Request.add] at h
      split at h
      · cases h; nofun
      · cases h

theorem ne_census_of_foldlM {l : List Item} {command : Command}
    (h : l.foldlM Request.add r = .error command) : command ≠ .census r' := by
  induction l generalizing r with
  | nil => cases h
  | cons item l ih =>
    rw [List.foldlM_cons] at h
    cases ha : r.add item with
    | error command' =>
      rw [ha] at h
      cases h
      exact ne_census_of_add ha
    | ok r₁ =>
      rw [ha] at h
      exact ih h

theorem read_eq_census_iff {arguments : List Bytes} : read arguments = .census r ↔
    (items arguments).foldlM Request.add Request.empty = .ok r ∧ r.paths.isEmpty = false := by
  unfold read
  cases hf : (items arguments).foldlM Request.add Request.empty with
  | error command =>
    constructor
    · intro h
      exact absurd h (ne_census_of_foldlM hf)
    · nofun
  | ok request =>
    dsimp only
    constructor
    · intro h
      split at h
      · cases h
      · next hp => cases h; exact ⟨rfl, Bool.eq_false_iff.mpr hp⟩
    · rintro ⟨h, hp⟩
      cases h
      rw [hp, if_neg Bool.false_ne_true]

theorem read_of_addsOutput {arguments arguments' : List Bytes} (h : read arguments = .census r)
    (ho : r.output = none) (hp : path ≠ []) (ha : AddsOutput path arguments arguments') :
    read arguments' = .census { r with output := some path } := by
  obtain ⟨before, after, hi, hi'⟩ := ha
  obtain ⟨hr, hpaths⟩ := read_eq_census_iff.mp h
  rw [hi, List.foldlM_append] at hr
  refine read_eq_census_iff.mpr ⟨?_, hpaths⟩
  rw [hi', List.foldlM_append]
  cases hb : before.foldlM Request.add Request.empty with
  | error command => rw [hb] at hr; cases hr
  | ok r₁ =>
    rw [hb] at hr
    -- the items behind the new one name no file, so there is none yet where it is added
    obtain ⟨ho₁, hl⟩ := foldlM_add_output path hr ho
    have hset : r₁.add (.setting .outputFile path) = .ok { r₁ with output := some path } := by
      have hvalue : (if path.isEmpty then none else some path) = some path :=
        if_neg (by rwa [List.isEmpty_iff])
      rw [Request.add, Request.set, hvalue, ho₁]
      rfl
    change (Item.setting .outputFile path :: after).foldlM Request.add r₁ = _
    rw [List.foldlM_cons, hset]
    exact hl

end

/-! ## Outcomes -/

/-- The standard error has these lines, and before them what the log lets through. -/
def Tells (s : Surroundings) (r : Request) (err : List Notice) (lines : List Text) : Prop :=
  ∃ events : List Event, (∀ e ∈ events, s.logs r.verbosity e = true) ∧
    err = events.map .logged ++ lines.map .said

theorem Tells.eq_of_silent {s : Surroundings} {r : Request} {err : List Notice} {lines : List Text}
    (h : Tells s r err lines) (hs : ∀ e, s.logs r.verbosity e = false) :
    err = lines.map .said := by
  obtain ⟨events, he, rfl⟩ := h
  cases events with
  | nil => rfl
  | cons e events =>
    have := he e (List.mem_cons_self ..)
    rw [hs e] at this
    cases this

theorem tells_log (s : Surroundings) (r : Request) (events : List Event) (lines : List Text) :
    Tells s r (r.log s events ++ lines.map .said) lines :=
  ⟨events.filter (s.logs r.verbosity), fun _ he => (List.mem_filter.mp he).2, rfl⟩

def skipLines (c : Census) : List Text :=
  c.skipped.map fun skip =>
    "Skipped ".toList ++ Path.shown skip.path ++ ": ".toList ++ skip.reason ++ ['\n']

/-- The outcome of a run that comes to nothing: behind other lines it tells why. -/
structure Fails (s : Surroundings) (r : Request) (tree : FileTree) (lines : List Text)
    (failure : Failure) (o : Outcome) : Prop where
  code : o.code = 1
  out : o.out = []
  err : Tells s r o.err (lines ++ ["Error: ".toList ++ failure.account ++ ['\n']])
  kept : o.tree = tree

/-- Of two outcomes of a census, the second differs in that the report is in a file and not on the
standard output. -/
structure MovesReport (tree : FileTree) (c : Census) (path : Path) (place : Location)
    (first second : Outcome) : Prop where
  out : second.out = []
  err : second.err = first.err
  code : second.code = first.code
  failure : first.code = 1 ↔ c.files = [] ∧ c.skipped ≠ []
  kept : first.tree = tree
  written : tree.Rewrites second.tree path place (Utf8.encode first.out)

theorem exitCode_eq_one_iff (c : Census) :
    exitCode c = 1 ↔ c.files = [] ∧ c.skipped ≠ [] := by
  unfold exitCode
  cases c.files <;> cases c.skipped <;> simp

section
variable (s : Surroundings) (tree : FileTree) (r : Request)

theorem told_eq (c : Census) : r.told s tree c =
    r.log s (r.events tree ++ [.finished c.files.length c.skipped.length]) ++
      (skipLines c).map .said := by
  rw [Request.told, skipLines, List.map_map]
  rfl

theorem fails_of_census {failure : Failure} (h : r.census tree = .error (.failed failure)) :
    Fails s r tree [] failure (r.run s tree) := by
  rw [Request.run, h]
  exact ⟨rfl, rfl, tells_log s r _ [errorLine failure], rfl⟩

theorem fails_of_report {c : Census} {failure : Failure} (h : r.census tree = .ok c)
    (hr : c.report s.bold (r.format.getD .text) = .error failure) :
    Fails s r tree (skipLines c) failure (r.run s tree) := by
  simp only [Request.run, h, hr, told_eq]
  refine ⟨rfl, rfl, ?_, rfl⟩
  have htells := tells_log s r (r.events tree ++ [.finished c.files.length c.skipped.length])
    (skipLines c ++ [errorLine failure])
  rwa [List.map_append, ← List.append_assoc] at htells

theorem format_eq_json {format : Option ReportFormat} (h : format.getD .text = .json) :
    format = some .json := by
  cases format with
  | none => cases h
  | some format => exact congrArg some h

theorem outcome_of_overflow (h : r.census tree = .error .overflow) : (r.run s tree).code = 101 ∧
    (r.run s tree).out = [] ∧ Tells s r (r.run s tree).err [] ∧ (r.run s tree).tree = tree := by
  rw [Request.run, h]
  refine ⟨rfl, rfl, ?_, rfl⟩
  have htells := tells_log s r (r.events tree) []
  rwa [List.map_nil, List.append_nil] at htells

theorem outcome_of_report {c : Census} {report : Text} (h : r.census tree = .ok c)
    (hr : c.report s.bold (r.format.getD .text) = .ok report) (ho : r.output = none) :
    (r.run s tree).out = report ∧ Tells s r (r.run s tree).err (skipLines c) := by
  have hrun : r.run s tree = ⟨exitCode c, report, r.told s tree c, tree⟩ := by
    simp only [Request.run, h, hr, ho, deliver]
  rw [hrun, told_eq]
  exact ⟨rfl, tells_log s r _ (skipLines c)⟩

theorem movesReport_of_takes {c : Census} {report : Text} {path : Path} {place : Location}
    (h : r.census tree = .ok c) (hr : c.report s.bold (r.format.getD .text) = .ok report)
    (ho : r.output = none) (ht : tree.Takes path place) :
    MovesReport tree c path place (r.run s tree)
      ({ r with output := some path }.run s tree) := by
  obtain ⟨tree', hw, hrewrites⟩ := FileTree.write_of_takes ht (Utf8.encode report)
  have h' : { r with output := some path }.census tree = .ok c := h
  simp only [Request.run, h, h', hr, ho, deliver, hw]
  exact ⟨rfl, rfl, rfl, exitCode_eq_one_iff c, rfl, hrewrites⟩

end

/-- What fails changes nothing. What does not fail is the same with and without a file for the
report. -/
theorem run_census (s : Surroundings) (tree : FileTree) (arguments : List Bytes) (r : Request)
    (h : read arguments = .census r) :
    let first := run s tree (read arguments)
    match r.census tree with
    | .error (.failed failure) => Fails s r tree [] failure first
    | .error .overflow =>
      first.code = 101 ∧ first.out = [] ∧ Tells s r first.err [] ∧ first.tree = tree
    | .ok c =>
      match c.report s.bold (r.format.getD .text) with
      | .error failure =>
        r.format = some .json ∧ (∃ skip ∈ c.skipped, ∀ t, skip.path ≠ Path.ofText t) ∧
          failure = .pathNotText ∧ Fails s r tree (skipLines c) failure first
      | .ok report =>
        r.output = none → first.out = report ∧ Tells s r first.err (skipLines c) ∧
          ∀ arguments' path place, AddsOutput path arguments arguments' → tree.Takes path place →
            MovesReport tree c path place first (run s tree (read arguments')) := by
  intro first
  have hfirst : first = r.run s tree := by
    change run s tree (read arguments) = _
    rw [h, run]
  rw [hfirst]
  cases hc : r.census tree with
  | error stop =>
    cases stop with
    | failed failure => exact fails_of_census s tree r hc
    | overflow => exact outcome_of_overflow s tree r hc
  | ok c =>
    dsimp only
    cases hr : c.report s.bold (r.format.getD .text) with
    | error failure =>
      obtain ⟨hformat, hfailure, hskip⟩ := Census.report_eq_error_iff.mp hr
      exact ⟨format_eq_json hformat, hskip, hfailure, fails_of_report s tree r hc hr⟩
    | ok report =>
      intro ho
      obtain ⟨hout, htells⟩ := outcome_of_report s tree r hc hr ho
      refine ⟨hout, htells, fun arguments' path place ha ht => ?_⟩
      have hpath : path ≠ [] := (FileTree.locate_eq_ok_iff.mp ht.locate).1.2.1
      rw [read_of_addsOutput path h ho hpath ha]
      exact movesReport_of_takes s tree r hc hr ho ht

def argumentsOf (words : List String) : List Bytes :=
  words.map fun word => Utf8.encode word.toList

def silent : Surroundings := ⟨false, some fun _ => false⟩

def sampleRequest : Request :=
  { Request.empty with
    paths := argumentsOf ["d", "x"], recursive := true, format := some .csv }

def sampleCounted : Census :=
  ⟨[⟨"d/a.rb".toList, ⟨0, 1, 0, 1⟩⟩], ⟨"TOTAL (1 files)".toList, ⟨0, 1, 0, 1⟩⟩,
    [⟨Path.ofText ['x'], "path does not exist: x".toList⟩]⟩

def sampleReport : Text :=
  ("File,LOC,Comments,Blank,Lines,Code:Comment\n" ++ "\"d/a.rb\",0,1,0,1,0.00\n" ++
    "\"TOTAL (1 files)\",0,1,0,1,0.00\n").toList

def strictRequest : Request :=
  { Request.empty with paths := argumentsOf ["d", "x"], strict := true }

def brokenRequest : Request :=
  { Request.empty with paths := [[0xFF]], format := some .json }

def brokenCensus : Census :=
  ⟨[], ⟨"TOTAL (0 files)".toList, ⟨0, 0, 0, 0⟩⟩,
    [⟨[0xFF], "path does not exist: \uFFFD".toList⟩]⟩

/-- The file for the report is one that is counted. -/
theorem run_census_sample :
    (read (argumentsOf ["-r", "-fcsv", "d", "x"]) = .census sampleRequest ∧
      sampleRequest.census sampleTree = .ok sampleCounted ∧
      ∃ place first second, sampleTree.Takes (Path.ofText "d/a.rb".toList) place ∧
        run silent sampleTree (read (argumentsOf ["-r", "-fcsv", "d", "x"])) = first ∧
        run silent sampleTree (read (argumentsOf ["-r", "-fcsv", "-o", "d/a.rb", "d", "x"])) =
          second ∧
        MovesReport sampleTree sampleCounted (Path.ofText "d/a.rb".toList) place first second ∧
        first.out = sampleReport ∧
        first.err = [.said "Skipped x: path does not exist: x\n".toList]) ∧
    (read (argumentsOf ["--strict", "d", "x"]) = .census strictRequest ∧
      ∃ o, run silent sampleTree (read (argumentsOf ["--strict", "d", "x"])) = o ∧ o.code = 1 ∧
        o.out = [] ∧ o.err = [.said "Error: path does not exist: x\n".toList] ∧
        o.tree = sampleTree) ∧
    read (argumentsOf ["-fjson"] ++ [[0xFF]]) = .census brokenRequest ∧
      ∃ o, run silent FileTree.empty (read (argumentsOf ["-fjson"] ++ [[0xFF]])) = o ∧
        o.code = 1 ∧ o.out = [] ∧
        o.err = [.said "Skipped \uFFFD: path does not exist: \uFFFD\n".toList,
          .said "Error: path contains invalid UTF-8 characters\n".toList] := by
  have hsilent {r : Request} {err : List Notice} {lines : List Text} (h : Tells silent r err lines) :
      err = lines.map .said := h.eq_of_silent fun _ => rfl
  have hr : read (argumentsOf ["-r", "-fcsv", "d", "x"]) = .census sampleRequest := by
    decide +kernel
  have hs : read (argumentsOf ["--strict", "d", "x"]) = .census strictRequest := by decide +kernel
  have hb : read (argumentsOf ["-fjson"] ++ [[0xFF]]) = .census brokenRequest := by decide +kernel
  refine ⟨⟨hr, ?_⟩, ⟨hs, ?_⟩, hb, ?_⟩
  · have hc : sampleRequest.census sampleTree = .ok sampleCounted := by decide +kernel
    have hreport : sampleCounted.report false .csv = .ok sampleReport := by decide +kernel
    have ha : AddsOutput (Path.ofText "d/a.rb".toList)
        (argumentsOf ["-r", "-fcsv", "d", "x"])
        (argumentsOf ["-r", "-fcsv", "-o", "d/a.rb", "d", "x"]) :=
      addsOutput_insert (argumentsOf ["-r", "-fcsv"]) (argumentsOf ["-o", "d/a.rb"])
        (argumentsOf ["d", "x"]) (by decide +kernel) (by decide +kernel) (by decide +kernel)
    have ht : sampleTree.Takes (Path.ofText "d/a.rb".toList)
        [sampleName, Name.ofText ['d'] (by decide)] :=
      Or.inl ⟨by decide +kernel, ⟨[35, 10], true⟩, by decide +kernel⟩
    have hrun := run_census silent sampleTree _ _ hr
    simp only [hc] at hrun
    rw [show sampleCounted.report silent.bold (sampleRequest.format.getD .text) = .ok sampleReport
      from hreport] at hrun
    obtain ⟨ho, he, hm⟩ := hrun rfl
    exact ⟨hc, _, _, _, ht, rfl, rfl, hm _ _ _ ha ht, ho, hsilent he⟩
  · have hc : strictRequest.census sampleTree = .error (.failed (.missing (Path.ofText ['x']))) := by
      decide +kernel
    have hrun := run_census silent sampleTree _ _ hs
    simp only [hc] at hrun
    exact ⟨_, rfl, hrun.code, hrun.out, hsilent hrun.err, hrun.kept⟩
  · have hc : brokenRequest.census FileTree.empty = .ok brokenCensus := by decide +kernel
    have hlines : skipLines brokenCensus ++
        ["Error: ".toList ++ Failure.pathNotText.account ++ ['\n']] =
          ["Skipped \uFFFD: path does not exist: \uFFFD\n".toList,
            "Error: path contains invalid UTF-8 characters\n".toList] := by decide +kernel
    have hrun := run_census silent FileTree.empty _ _ hb
    rw [hc] at hrun
    obtain ⟨-, -, -, hfails⟩ := hrun
    have herr := hsilent hfails.err
    rw [hlines] at herr
    exact ⟨_, rfl, hfails.code, hfails.out, herr⟩

/-- With a log that is told to be verbose, a command that fails tells more than why. One that has
counted a file fails all the same if it cannot write its report down. -/
theorem verbose_and_broken_runs :
    (∃ r, read (argumentsOf ["-v", "--strict", "b"]) = .census r ∧
      r.census sampleTree = .error (.failed (.unknownExtension (Path.ofText ['b']))) ∧
      (run ⟨false, none⟩ sampleTree (read (argumentsOf ["-v", "--strict", "b"]))).err =
        [.logged (.discovered 1),
          .said "Error: no language registered for file: b\n".toList] ∧
      ∀ message, (run ⟨false, none⟩ sampleTree (read (argumentsOf ["-v", "--strict", "b"]))).err ≠
        [.said ("Error: ".toList ++ message ++ ['\n'])]) ∧
    ∃ r c, read (argumentsOf ["-fjson", "d/a.rb"] ++ [[0xFF]]) = .census r ∧
      r.census sampleTree = .ok c ∧ c.files ≠ [] ∧
      (run silent sampleTree (read (argumentsOf ["-fjson", "d/a.rb"] ++ [[0xFF]]))).code = 1 ∧
      (run silent sampleTree (read (argumentsOf ["-fjson", "d/a.rb"] ++ [[0xFF]]))).out = [] := by
  constructor
  · have herr : (run ⟨false, none⟩ sampleTree (read (argumentsOf ["-v", "--strict", "b"]))).err =
        [.logged (.discovered 1), .said "Error: no language registered for file: b\n".toList] := by
      decide +kernel
    refine ⟨{ Request.empty with paths := argumentsOf ["b"], strict := true, verbosity := 1 },
      by decide +kernel, by decide +kernel, herr, fun message h => ?_⟩
    rw [herr] at h
    cases h
  · have hc : ({ brokenRequest with paths := argumentsOf ["d/a.rb"] ++ [[0xFF]] }).census sampleTree =
        .ok { brokenCensus with
          files := sampleCounted.files
          total := sampleCounted.total } := by decide +kernel
    exact ⟨_, _, by decide +kernel, hc, List.cons_ne_nil _ _, by decide +kernel, by decide +kernel⟩

end LineCensus.CommandLine
