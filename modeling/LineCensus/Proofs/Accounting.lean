import LineCensus.Proofs.Discovery
import LineCensus.Proofs.Settling
import LineCensus.Proofs.ShownPaths
import Mathlib.Data.List.Forall2
import Mathlib.Data.List.Nodup

/-!
# Every path is accounted for

A census that skips what fails counts each target or lists it as skipped, never both
(`census_accounts`). One that aborts fails with what the other skips first (`census_abort`).
-/

namespace LineCensus

/-- What a counted path is listed as: under its own spelling, as far as that is text, with the
counts for the language that the path has. -/
structure CountsAs (tree : FileTree) (o : Options) (p : Path) (e : Entry) : Prop where
  name : e.name = Path.shown p
  spelling : ∀ t, p = Path.ofText t → e.name = t
  counts : ∃ l, (o.language.or (o.extensions.languageOfPath? p)).or o.fallback = some l ∧
    countFile tree l.rules o.blankInBlock p = .ok e

/-- What is left of the paths given: each target is counted or skipped, in order and behind the
paths that lead nowhere. -/
structure Accounts (tree : FileTree) (o : Options) (roots : List Path) (c : Census) : Prop where
  files : c.files = o.files tree roots
  skipped : c.skipped = o.skipped tree roots
  once : ∃ counted : List Path, counted.Sublist (o.targets tree roots) ∧
    List.Forall₂ (CountsAs tree o) counted c.files ∧
    ∀ p ∈ o.targets tree roots, counted.count p + (c.skipped.map Skip.path).count p = 1
  walked : ∀ s ∈ c.skipped, s.path ∉ roots → ∀ q, s.reason ≠ (Failure.unknownExtension q).message
  totalName : c.total.name = "TOTAL (".toList ++ Text.decimal c.files.length ++ " files)".toList
  totalCounts : ∀ column,
    c.total.counts.get column = (c.files.map (·.counts.get column)).sum

/-! ## Each target once -/

theorem count_filterMap {β : Type} {f : Path → Option β} {g : β → Path}
    (h : ∀ a b, f a = some b → g b = a) (p : Path) (ps : List Path) :
    ((ps.filterMap f).map g).count p = if (f p).isSome then ps.count p else 0 := by
  induction ps with
  | nil => split <;> rfl
  | cons q ps ih =>
    cases hq : f q with
    | none =>
      rw [List.filterMap_cons_none hq, ih]
      by_cases hp : q = p
      · rw [← hp, hq]; rfl
      · rw [List.count_cons_of_ne hp]
    | some b =>
      rw [List.filterMap_cons_some hq, List.map_cons, h q b hq]
      by_cases hp : q = p
      · rw [hp, List.count_cons_self, List.count_cons_self, ih, ← hp, hq]; rfl
      · rw [List.count_cons_of_ne hp, List.count_cons_of_ne hp, ih]

namespace Options
variable {tree : FileTree} {o : Options} {roots : List Path} {p : Path}

theorem countsAs_of_countFile {e : Entry} (h : o.countFile tree p = .ok e) :
    CountsAs tree o p e := by
  obtain ⟨l, hl, he⟩ := countFile_eq_ok_iff.mp h
  refine ⟨name_of_countFile he, ?_, l, hl, he⟩
  rintro t rfl
  rw [name_of_countFile he, Path.shown_ofText]

def countedPaths (o : Options) (tree : FileTree) (roots : List Path) : List Path :=
  (o.targets tree roots).filter fun p => (o.counted? tree p).isSome

theorem mem_targets_of_mem_countedPaths (h : p ∈ o.countedPaths tree roots) :
    p ∈ o.targets tree roots :=
  (List.mem_filter.mp h).1

theorem forall₂_files : List.Forall₂ (fun p e => o.countFile tree p = .ok e)
    (o.countedPaths tree roots) (o.files tree roots) := by
  unfold countedPaths files
  induction o.targets tree roots with
  | nil => exact .nil
  | cons p ps ih =>
    cases hc : o.counted? tree p with
    | none =>
      rw [List.filter_cons_of_neg (by simp [hc]), List.filterMap_cons_none hc]
      exact ih
    | some e =>
      rw [List.filter_cons_of_pos (by simp [hc]), List.filterMap_cons_some hc]
      exact .cons (counted?_eq_some_iff.mp hc) ih

theorem path_of_skip {α : Type} {result : Except Failure α} {s : Skip}
    (h : skip? p result = some s) : s.path = p := by
  cases result with
  | ok a => cases h
  | error failure => cases h; rfl

theorem discovered_of_mem_targets (h : p ∈ o.targets tree roots) :
    ∃ r ∈ roots, ∃ found, o.discover tree r = .ok found ∧ p ∈ found := by
  obtain ⟨found, hf, hp⟩ := List.mem_flatten.mp (Path.mem_of_mem_withoutRepeats h)
  obtain ⟨r, hr, hd⟩ := List.mem_filterMap.mp hf
  cases hx : o.discover tree r with
  | error failure => rw [hx] at hd; cases hd
  | ok found' =>
    rw [hx] at hd
    cases hd
    exact ⟨r, hr, found, hx, hp⟩

theorem of_mem_targets (h : p ∈ o.targets tree roots) :
    tree.LeadsToFile p ∧ (p ∈ roots ∨ (o.languageOf? p).isSome) := by
  obtain ⟨r, hr, found, hd, hp⟩ := discovered_of_mem_targets h
  obtain ⟨hl, rfl | ha⟩ := FileTree.of_mem_discover hd hp
  · exact ⟨hl, Or.inl hr⟩
  · exact ⟨hl, Or.inr ha⟩

theorem rootSkip?_eq_none {place : Location} (hr : tree.resolve p = .ok place) :
    o.rootSkip? tree p = none := by
  unfold rootSkip?
  cases hd : o.discover tree p with
  | ok found => rfl
  | error failure =>
    obtain ⟨-, obstacle, he⟩ := FileTree.discover_eq_error_iff.mp hd
    rw [hr] at he; cases he

theorem count_targets (h : p ∈ o.targets tree roots) : (o.targets tree roots).count p = 1 :=
  List.nodup_iff_count_eq_one.mp (Path.nodup_withoutRepeats _) p h

theorem count_countedPaths (h : p ∈ o.targets tree roots) :
    (o.countedPaths tree roots).count p = if (o.counted? tree p).isSome then 1 else 0 := by
  unfold countedPaths
  by_cases hc : (o.counted? tree p).isSome = true
  · have hf : ((o.targets tree roots).filter fun q => (o.counted? tree q).isSome).count p =
        (o.targets tree roots).count p := List.count_filter hc
    rw [if_pos hc, hf, count_targets h]
  · rw [if_neg hc, List.count_eq_zero]
    exact fun hm => hc (List.mem_filter.mp hm).2

theorem targets_once (ho : o.countFile tree p ≠ .error .overflow)
    (h : p ∈ o.targets tree roots) :
    (o.countedPaths tree roots).count p +
      ((o.skipped tree roots).map Skip.path).count p = 1 := by
  have hr : ∀ q s, o.rootSkip? tree q = some s → s.path = q := fun q s => path_of_skip
  have hs : ∀ q s, o.fileSkip? tree q = some s → s.path = q := by
    intro q s hq
    obtain ⟨failure, -, rfl⟩ := fileSkip?_eq_some_iff.mp hq
    rfl
  obtain ⟨_, _, hp, -⟩ := (of_mem_targets h).1
  rw [count_countedPaths h, skipped, List.map_append, List.count_append, count_filterMap hr,
    count_filterMap hs, rootSkip?_eq_none hp, count_targets h, counted?, fileSkip?]
  cases hc : o.countFile tree p with
  | ok e => rfl
  | error stop =>
    cases stop with
    | overflow => exact absurd hc ho
    | failed failure => rfl

theorem message_unreadable_ne (path path' : Path) (obstacle : Obstacle) :
    (Failure.unreadable path obstacle).message ≠ (Failure.unknownExtension path').message := by
  intro h
  exact absurd (List.cons.inj h).1 (by decide)

/-- A file without a language is skipped only if its path was given. -/
theorem reason_ne_of_walked (h : p ∈ o.targets tree roots) (hp : p ∉ roots) {s : Skip}
    (hs : o.fileSkip? tree p = some s) (q : Path) :
    s.reason ≠ (Failure.unknownExtension q).message := by
  obtain ⟨failure, hc, rfl⟩ := fileSkip?_eq_some_iff.mp hs
  have hl : (o.languageOf? p).isSome := (of_mem_targets h).2.resolve_left hp
  rcases countFile_eq_failed_iff.mp hc with ⟨hn, -⟩ | ⟨-, obstacle, -, rfl⟩
  · rw [hn] at hl; cases hl
  · exact message_unreadable_ne p q obstacle

end Options

/-! ## Skipping -/

section
variable {tree : FileTree} {o : Options} {roots : List Path}

theorem accounts_of_of? {c : Census} (h : ¬ o.Overflows tree roots)
    (hc : Census.of? (o.files tree roots) (o.skipped tree roots) = some c) :
    Accounts tree o roots c := by
  obtain ⟨hf, hs, hn, ht⟩ := Census.of_of?_eq_some hc
  refine ⟨hf, hs, ⟨o.countedPaths tree roots, List.filter_sublist, ?_, ?_⟩, ?_, ?_, ?_⟩
  · rw [hf]
    exact Options.forall₂_files.imp fun _ _ => Options.countsAs_of_countFile
  · intro p hp
    rw [hs]
    exact Options.targets_once (no_overflow_of_not_overflows h p hp) hp
  · intro s hm hp q
    rw [hs] at hm
    rcases List.mem_append.mp hm with hm | hm
    · obtain ⟨r, hr, hq⟩ := List.mem_filterMap.mp hm
      rw [Options.path_of_skip hq] at hp
      exact absurd hr hp
    · obtain ⟨p, ht, hq⟩ := List.mem_filterMap.mp hm
      obtain ⟨failure, -, rfl⟩ := Options.fileSkip?_eq_some_iff.mp hq
      exact Options.reason_ne_of_walked ht hp hq q
  · rw [hn, hf]
    rfl
  · rw [hf]
    exact ht

end

theorem census_accounts (tree : FileTree) (o : Options) (roots : List Path)
    (hs : o.onFailure = .skip) :
    (o.Overflows tree roots → census tree o roots = .error .overflow) ∧
      (¬ o.Overflows tree roots → ∃ c, census tree o roots = .ok c ∧ Accounts tree o roots c) := by
  have ho : { o with onFailure := .skip } = o := by rw [← hs]
  constructor
  · intro h
    rw [← census_skip_of_overflows h, ho]
  · intro h
    obtain ⟨c, hc, he⟩ := exists_census_skip h
    rw [ho] at he
    exact ⟨c, he, accounts_of_of? h hc⟩

def sampleName : Name :=
  Name.ofText "a.rb".toList (by decide)

def sampleTree : FileTree :=
  let d := Name.ofText "d".toList (by decide)
  let b := Name.ofText "b".toList (by decide)
  let c := Name.ofText "c.rb".toList (by decide)
  [([d], .directory), ([sampleName, d], .file ⟨[35, 10], true⟩), ([b], .file ⟨[97], true⟩),
    ([c], .file ⟨[120], false⟩)].foldl (fun tree node => tree.put node.1 node.2) FileTree.empty

def sampleOptions : Options where
  filter := ⟨[], [], true⟩
  extensions := Extensions.standard
  language := none
  fallback := none
  blankInBlock := .blank
  onFailure := .skip

def sampleRoots : List Path :=
  ["d", "x", "b", "d//a.rb", "b", "c.rb"].map fun s => Path.ofText s.toList

theorem sample_outcome :
    (census sampleTree sampleOptions sampleRoots).toOption.map
        (fun c => (c.files.map Entry.name, c.skipped, c.total.name)) =
      some (["d/a.rb".toList],
        [⟨Path.ofText "x".toList, "path does not exist: x".toList⟩,
          ⟨Path.ofText "b".toList, "no language registered for file: b".toList⟩,
          ⟨Path.ofText "c.rb".toList,
            "failed to read file 'c.rb': Permission denied (os error 13)".toList⟩],
        "TOTAL (1 files)".toList) := by
  decide +kernel

theorem sample_not_overflows : ¬ sampleOptions.Overflows sampleTree sampleRoots := by
  intro h
  have hs := sample_outcome
  rw [show census sampleTree sampleOptions sampleRoots = _ from census_skip_of_overflows h] at hs
  cases hs

theorem census_accounts_sample : sampleOptions.onFailure = .skip ∧
    ¬ sampleOptions.Overflows sampleTree sampleRoots ∧
    ∃ c, census sampleTree sampleOptions sampleRoots = .ok c ∧
      Accounts sampleTree sampleOptions sampleRoots c ∧
      c.files.map Entry.name = ["d/a.rb".toList] ∧
      c.skipped.map Skip.path = ["x", "b", "c.rb"].map (fun s => Path.ofText s.toList) ∧
      c.total.name = "TOTAL (1 files)".toList := by
  obtain ⟨c, he, ha⟩ :=
    (census_accounts sampleTree sampleOptions sampleRoots rfl).2 sample_not_overflows
  have hs := sample_outcome
  rw [he] at hs
  injection hs with hs
  injection hs with hf hs
  injection hs with hk ht
  exact ⟨rfl, sample_not_overflows, c, he, ha, hf, by rw [hk]; rfl, ht⟩

def brokenName : Name :=
  ⟨[0xFF, 0x2E, 0x72, 0x62], by decide, by decide, by decide, by decide⟩

/-- A path that is no text is listed under a name that is not its spelling. -/
theorem census_broken_name :
    let tree := FileTree.empty.put [brokenName] (.file ⟨[], true⟩)
    let roots : List Path := [brokenName.bytes]
    sampleOptions.onFailure = .skip ∧ sampleOptions.targets tree roots = [brokenName.bytes] ∧
      census tree sampleOptions roots =
        .ok ⟨[⟨"\uFFFD.rb".toList, ⟨0, 0, 0, 0⟩⟩], ⟨"TOTAL (1 files)".toList, ⟨0, 0, 0, 0⟩⟩, []⟩ ∧
      Path.ofText "\uFFFD.rb".toList ≠ brokenName.bytes := by
  decide +kernel

/-! ## Aborting -/

section
variable {tree : FileTree} {o : Options} {roots : List Path}

theorem census_abort_of_rootSkip {s : Skip} {rest : List Skip}
    (h : roots.filterMap (o.rootSkip? tree) = s :: rest) :
    ∃ failure, census tree { o with onFailure := .abort } roots = .error (.failed failure) ∧
      failure.message = s.reason := by
  obtain ⟨failure, he, hm⟩ := settle_abort_of_cons (by rw [skips_roots, h])
  exact ⟨failure, by rw [census_eq, he], hm⟩

theorem census_abort_of_no_rootSkip (h : roots.filterMap (o.rootSkip? tree) = [])
    {counted : List (Except Failure Entry)}
    (hc : countAll tree o (o.targets tree roots) = .ok counted) :
    census tree { o with onFailure := .abort } roots =
      match settle .abort ((o.targets tree roots).zip counted) with
      | .error failure => .error (.failed failure)
      | .ok (files, skippedFiles) =>
        match Census.of? files skippedFiles with
        | none => .error .overflow
        | some c => .ok c := by
  rw [census_eq, settle_abort_of_nil (by rw [skips_roots, h]), got_roots]
  dsimp only
  rw [distinct_found, hc]
  rfl

theorem census_abort_of_no_skip (h : ¬ o.Overflows tree roots) (hn : o.skipped tree roots = [])
    {c : Census} (hc : Census.of? (o.files tree roots) [] = some c) :
    census tree { o with onFailure := .abort } roots = .ok c := by
  obtain ⟨hr, hf⟩ := List.append_eq_nil_iff.mp hn
  obtain ⟨counted, hk, hgot, hskips⟩ :=
    countAll_of_no_overflow tree o (no_overflow_of_not_overflows h)
  rw [census_abort_of_no_rootSkip hr hk, settle_abort_of_nil (hskips.trans hf), hgot]
  dsimp only
  rw [show Census.of? ((o.targets tree roots).filterMap (o.counted? tree)) [] = some c from hc]

theorem census_abort_of_skip (h : ¬ o.Overflows tree roots) {s : Skip} {rest : List Skip}
    (hs : o.skipped tree roots = s :: rest) :
    ∃ failure, census tree { o with onFailure := .abort } roots = .error (.failed failure) ∧
      failure.message = s.reason := by
  unfold Options.skipped at hs
  cases hr : roots.filterMap (o.rootSkip? tree) with
  | cons r rs =>
    rw [hr] at hs
    cases hs
    exact census_abort_of_rootSkip hr
  | nil =>
    rw [hr] at hs
    obtain ⟨counted, hk, -, hskips⟩ :=
      countAll_of_no_overflow tree o (no_overflow_of_not_overflows h)
    obtain ⟨failure, hf, hm⟩ := settle_abort_of_cons (hskips.trans hs)
    exact ⟨failure, by rw [census_abort_of_no_rootSkip hr hk, hf], hm⟩

theorem skipped_eq_nil_of_census_abort {c : Census}
    (h : census tree { o with onFailure := .abort } roots = .ok c) : c.skipped = [] := by
  rw [census_eq] at h
  split at h
  · cases h
  · next found skippedPaths hr =>
    split at h
    · cases h
    · split at h
      · cases h
      · next files skippedFiles hf =>
        split at h
        · cases h
        · next c' hc =>
          cases h
          rw [(Census.of_of?_eq_some hc).2.1, eq_nil_of_settle_abort hr,
            eq_nil_of_settle_abort hf]
          rfl

end

theorem census_abort (tree : FileTree) (o : Options) (roots : List Path) :
    (¬ o.Overflows tree roots → ∃ c,
      census tree { o with onFailure := .skip } roots = .ok c ∧
      (c.skipped = [] → census tree { o with onFailure := .abort } roots = .ok c) ∧
      ∀ s rest, c.skipped = s :: rest → ∃ failure,
        census tree { o with onFailure := .abort } roots = .error (.failed failure) ∧
        failure.message = s.reason) ∧
    ∀ c, census tree { o with onFailure := .abort } roots = .ok c → c.skipped = [] := by
  refine ⟨fun h => ?_, fun c => skipped_eq_nil_of_census_abort⟩
  obtain ⟨c, hc, he⟩ := exists_census_skip h
  have hskipped : c.skipped = o.skipped tree roots := (Census.of_of?_eq_some hc).2.1
  refine ⟨c, he, fun hn => ?_, fun s rest hs => ?_⟩
  · rw [hskipped] at hn
    rw [hn] at hc
    exact census_abort_of_no_skip h hn hc
  · rw [hskipped] at hs
    exact census_abort_of_skip h hs

theorem census_abort_sample : ¬ sampleOptions.Overflows sampleTree sampleRoots ∧
    ∃ failure, census sampleTree { sampleOptions with onFailure := .abort } sampleRoots =
      .error (.failed failure) ∧ failure.message = "path does not exist: x".toList := by
  refine ⟨sample_not_overflows, ?_⟩
  obtain ⟨c, he, -, hf⟩ :=
    (census_abort sampleTree sampleOptions sampleRoots).1 sample_not_overflows
  have hs := sample_outcome
  rw [show census sampleTree sampleOptions sampleRoots = _ from he] at hs
  injection hs with hs
  injection hs with _ hs
  injection hs with hk _
  exact hf _ _ hk

end LineCensus
