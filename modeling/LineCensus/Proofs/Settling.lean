import LineCensus.Census
import LineCensus.Proofs.Keys
import LineCensus.Proofs.Sums

/-!
# A census in three steps

The paths given are settled into targets, the targets into counts and skips, the counts into a
total (`census_eq`). What a census that skips comes to is said without its loops
(`census_skip_of_overflows`, `exists_census_skip`).
-/

namespace LineCensus

/-! ## Settling -/

section
variable {α : Type}

def skip? (path : Path) : Except Failure α → Option Skip
  | .ok _ => none
  | .error failure => some ⟨path, failure.message⟩

def got (results : List (Path × Except Failure α)) : List α :=
  results.filterMap (·.2.toOption)

def skips (results : List (Path × Except Failure α)) : List Skip :=
  results.filterMap fun r => skip? r.1 r.2

theorem got_ok (path : Path) (a : α) (results : List (Path × Except Failure α)) :
    got ((path, .ok a) :: results) = a :: got results := rfl

theorem got_error (path : Path) (failure : Failure) (results : List (Path × Except Failure α)) :
    got ((path, .error failure) :: results) = got results := rfl

theorem skips_ok (path : Path) (a : α) (results : List (Path × Except Failure α)) :
    skips ((path, .ok a) :: results) = skips results := rfl

theorem skips_error (path : Path) (failure : Failure) (results : List (Path × Except Failure α)) :
    skips ((path, .error failure) :: results) = ⟨path, failure.message⟩ :: skips results := rfl

theorem settle_skip (results : List (Path × Except Failure α)) :
    settle .skip results = .ok (got results, skips results) := by
  induction results with
  | nil => rfl
  | cons r results ih =>
    obtain ⟨path, result⟩ := r
    cases result with
    | ok a => rw [settle, ih, got_ok, skips_ok]; rfl
    | error failure => rw [settle, ih, got_error, skips_error]; rfl

theorem settle_abort_of_nil {results : List (Path × Except Failure α)} (h : skips results = []) :
    settle .abort results = .ok (got results, []) := by
  induction results with
  | nil => rfl
  | cons r results ih =>
    obtain ⟨path, result⟩ := r
    cases result with
    | ok a => rw [settle, ih (by rwa [skips_ok] at h), got_ok]; rfl
    | error failure => rw [skips_error] at h; cases h

theorem settle_abort_of_cons {results : List (Path × Except Failure α)} {s : Skip}
    {rest : List Skip} (h : skips results = s :: rest) :
    ∃ failure, settle .abort results = .error failure ∧ failure.message = s.reason := by
  induction results with
  | nil => cases h
  | cons r results ih =>
    obtain ⟨path, result⟩ := r
    cases result with
    | ok a =>
      rw [skips_ok] at h
      obtain ⟨failure, he, hm⟩ := ih h
      exact ⟨failure, by rw [settle, he]; rfl, hm⟩
    | error failure =>
      rw [skips_error] at h
      cases h
      exact ⟨failure, rfl, rfl⟩

theorem eq_got_of_settle {policy : OnFailure} {results : List (Path × Except Failure α)}
    {as : List α} {skipped : List Skip} (h : settle policy results = .ok (as, skipped)) :
    as = got results := by
  cases policy with
  | skip => rw [settle_skip] at h; cases h; rfl
  | abort =>
    cases hs : skips results with
    | nil => rw [settle_abort_of_nil hs] at h; cases h; rfl
    | cons s rest =>
      obtain ⟨failure, he, -⟩ := settle_abort_of_cons hs
      rw [he] at h; cases h

theorem eq_nil_of_settle_abort {results : List (Path × Except Failure α)} {as : List α}
    {skipped : List Skip} (h : settle .abort results = .ok (as, skipped)) : skipped = [] := by
  cases hs : skips results with
  | nil => rw [settle_abort_of_nil hs] at h; cases h; rfl
  | cons s rest =>
    obtain ⟨failure, he, -⟩ := settle_abort_of_cons hs
    rw [he] at h; cases h

end

/-! ## Targets -/

namespace Options
variable (o : Options) (tree : FileTree)

/-- What the paths given stand for, in order, without repeats. -/
def targets (roots : List Path) : List Path :=
  Path.withoutRepeats (roots.filterMap fun r => (o.discover tree r).toOption).flatten

def rootSkip? (root : Path) : Option Skip :=
  skip? root (o.discover tree root)

def counted? (path : Path) : Option Entry :=
  (o.countFile tree path).toOption

def fileSkip? (path : Path) : Option Skip :=
  match o.countFile tree path with
  | .error (.failed failure) => some ⟨path, failure.message⟩
  | _ => none

def files (roots : List Path) : List Entry :=
  (o.targets tree roots).filterMap (o.counted? tree)

/-- What is skipped if nothing aborts: paths that lead nowhere, then targets. -/
def skipped (roots : List Path) : List Skip :=
  roots.filterMap (o.rootSkip? tree) ++ (o.targets tree roots).filterMap (o.fileSkip? tree)

/-- A counter of one target or of the total goes past its limit. -/
def Overflows (roots : List Path) : Prop :=
  (∃ p ∈ o.targets tree roots, o.countFile tree p = .error .overflow) ∨
    ∃ column, UInt64.size ≤ ((o.files tree roots).map (·.counts.get column)).sum

end Options

/-! ## Counting one file -/

theorem name_of_countFile {tree : FileTree} {rules : Rules} {policy : BlankInBlock} {path : Path}
    {e : Entry} (h : countFile tree rules policy path = .ok e) : e.name = Path.shown path := by
  unfold countFile at h
  split at h
  · cases h
  · split at h
    · cases h
    · cases h; rfl

theorem exists_countBytes?_of_countFile {tree : FileTree} {rules : Rules} {policy : BlankInBlock}
    {path : Path} {e : Entry} (h : countFile tree rules policy path = .ok e) :
    ∃ bytes, countBytes? rules policy bytes = some e.counts := by
  unfold countFile at h
  split at h
  · cases h
  · next bytes _ =>
    split at h
    · cases h
    · next counts hc =>
      cases h
      exact ⟨bytes, hc⟩

namespace Options
variable {o : Options} {tree : FileTree} {path : Path}

theorem countFile_eq_ok_iff {e : Entry} : o.countFile tree path = .ok e ↔
    ∃ l, o.languageOf? path = some l ∧
      LineCensus.countFile tree l.rules o.blankInBlock path = .ok e := by
  unfold countFile
  cases o.languageOf? path with
  | none => simp
  | some l => simp

theorem countFile_eq_failed_iff {failure : Failure} :
    o.countFile tree path = .error (.failed failure) ↔
      (o.languageOf? path = none ∧ failure = .unknownExtension path) ∨
      ((o.languageOf? path).isSome ∧
        ∃ obstacle, tree.read path = .error obstacle ∧ failure = .unreadable path obstacle) := by
  unfold countFile LineCensus.countFile
  cases o.languageOf? path with
  | none => simp [eq_comm]
  | some l =>
    dsimp only
    cases tree.read path with
    | error obstacle => simp [eq_comm]
    | ok bytes =>
      dsimp only
      cases countBytes? l.rules o.blankInBlock bytes <;> simp

theorem counted?_eq_some_iff {e : Entry} :
    o.counted? tree path = some e ↔ o.countFile tree path = .ok e := by
  unfold counted?
  cases o.countFile tree path <;> simp [Except.toOption]

theorem fileSkip?_eq_some_iff {s : Skip} : o.fileSkip? tree path = some s ↔
    ∃ failure, o.countFile tree path = .error (.failed failure) ∧ s = ⟨path, failure.message⟩ := by
  unfold fileSkip?
  cases o.countFile tree path with
  | ok e => simp
  | error stop =>
    cases stop with
    | overflow => simp
    | failed failure => simp [eq_comm]

end Options

/-! ## Counting the targets -/

section
variable (tree : FileTree) (o : Options)

def countAll (targets : List Path) : Except Stop (List (Except Failure Entry)) :=
  targets.mapM fun p => withoutOverflow (o.countFile tree p)

theorem countAll_of_overflow {targets : List Path}
    (h : ∃ p ∈ targets, o.countFile tree p = .error .overflow) :
    countAll tree o targets = .error .overflow := by
  induction targets with
  | nil => obtain ⟨p, hp, -⟩ := h; cases hp
  | cons q targets ih =>
    have hrest : o.countFile tree q ≠ .error .overflow →
        ∃ p ∈ targets, o.countFile tree p = .error .overflow := by
      intro hq
      obtain ⟨p, hp, he⟩ := h
      rcases List.mem_cons.mp hp with rfl | hp
      · exact absurd he hq
      · exact ⟨p, hp, he⟩
    unfold countAll at ih ⊢
    rw [List.mapM_cons]
    cases hq : o.countFile tree q with
    | ok e => rw [ih (hrest (by simp [hq]))]; rfl
    | error stop =>
      cases stop with
      | overflow => rfl
      | failed failure => rw [ih (hrest (by simp [hq]))]; rfl

theorem countAll_of_no_overflow {targets : List Path}
    (h : ∀ p ∈ targets, o.countFile tree p ≠ .error .overflow) :
    ∃ counted, countAll tree o targets = .ok counted ∧
      got (targets.zip counted) = targets.filterMap (o.counted? tree) ∧
      skips (targets.zip counted) = targets.filterMap (o.fileSkip? tree) := by
  induction targets with
  | nil => exact ⟨[], rfl, rfl, rfl⟩
  | cons q targets ih =>
    obtain ⟨counted, hc, hgot, hskips⟩ := ih fun p hp => h p (List.mem_cons_of_mem _ hp)
    unfold countAll at hc ⊢
    rw [List.mapM_cons, hc]
    cases hq : o.countFile tree q with
    | ok e =>
      refine ⟨.ok e :: counted, rfl, ?_, ?_⟩
      · rw [List.zip_cons_cons, got_ok, hgot,
          List.filterMap_cons_some (by rw [Options.counted?, hq]; rfl)]
      · rw [List.zip_cons_cons, skips_ok, hskips,
          List.filterMap_cons_none (by rw [Options.fileSkip?, hq])]
    | error stop =>
      cases stop with
      | overflow => exact absurd hq (h q (List.mem_cons_self ..))
      | failed failure =>
        refine ⟨.error failure :: counted, rfl, ?_, ?_⟩
        · rw [List.zip_cons_cons, got_error, hgot,
            List.filterMap_cons_none (by rw [Options.counted?, hq]; rfl)]
        · rw [List.zip_cons_cons, skips_error, hskips,
            List.filterMap_cons_some (by rw [Options.fileSkip?, hq])]

theorem search_eq (policy : OnFailure) (roots : List Path) :
    Options.search { o with onFailure := policy } tree roots =
      match settle policy (roots.map fun p => (p, o.discover tree p)) with
      | .error failure => .error failure
      | .ok (found, skipped) => .ok (Path.distinct found.flatten, skipped) := by
  unfold Options.search
  rw [show Options.discover { o with onFailure := policy } tree = o.discover tree from rfl]
  cases settle policy (roots.map fun p => (p, o.discover tree p)) <;> rfl

theorem countFiles_eq (policy : OnFailure) (targets : List Path) :
    Options.countFiles { o with onFailure := policy } tree targets =
      match countAll tree o targets with
      | .error stop => .error stop
      | .ok counted => (settle policy (targets.zip counted)).mapError Stop.failed := by
  unfold Options.countFiles countAll
  rw [show Options.countFile { o with onFailure := policy } tree = o.countFile tree from rfl]
  cases targets.mapM fun p => withoutOverflow (o.countFile tree p) <;> rfl

theorem census_eq (policy : OnFailure) (roots : List Path) :
    census tree { o with onFailure := policy } roots =
      match settle policy (roots.map fun p => (p, o.discover tree p)) with
      | .error failure => .error (.failed failure)
      | .ok (found, skippedPaths) =>
        match countAll tree o (Path.distinct found.flatten) with
        | .error stop => .error stop
        | .ok counted =>
          match settle policy ((Path.distinct found.flatten).zip counted) with
          | .error failure => .error (.failed failure)
          | .ok (files, skippedFiles) =>
            match Census.of? files (skippedPaths ++ skippedFiles) with
            | none => .error .overflow
            | some c => .ok c := by
  rw [census, search_eq]
  cases settle policy (roots.map fun p => (p, o.discover tree p)) with
  | error failure => rfl
  | ok settled =>
    obtain ⟨found, skippedPaths⟩ := settled
    dsimp only [Except.mapError, bind, Except.bind]
    rw [countFiles_eq]
    cases countAll tree o (Path.distinct found.flatten) with
    | error stop => rfl
    | ok counted =>
      dsimp only
      cases settle policy ((Path.distinct found.flatten).zip counted) with
      | error failure => rfl
      | ok settled =>
        obtain ⟨files, skippedFiles⟩ := settled
        dsimp only [Except.mapError]
        cases Census.of? files (skippedPaths ++ skippedFiles) <;> rfl

theorem got_roots (roots : List Path) : got (roots.map fun p => (p, o.discover tree p)) =
    roots.filterMap fun r => (o.discover tree r).toOption := by
  rw [got, List.filterMap_map]; rfl

theorem skips_roots (roots : List Path) : skips (roots.map fun p => (p, o.discover tree p)) =
    roots.filterMap (o.rootSkip? tree) := by
  rw [skips, List.filterMap_map]; rfl

end

/-! ## The total -/

namespace Census
variable {files : List Entry} {skipped : List Skip}

theorem of?_eq_none_iff : of? files skipped = none ↔
    ∃ column, UInt64.size ≤ (files.map (·.counts.get column)).sum := by
  rw [of?, Option.map_eq_none_iff, Entry.total?, Option.map_eq_none_iff, Counts.sum?_eq_none_iff]
  simp only [List.map_map]; rfl

theorem of_of?_eq_some {c : Census} (h : of? files skipped = some c) :
    c.files = files ∧ c.skipped = skipped ∧ c.total.name = totalName files.length ∧
      ∀ column, c.total.counts.get column = (files.map (·.counts.get column)).sum := by
  rw [of?, Option.map_eq_some_iff] at h
  obtain ⟨total, ht, rfl⟩ := h
  rw [Entry.total?, Option.map_eq_some_iff] at ht
  obtain ⟨counts, hc, rfl⟩ := ht
  refine ⟨rfl, rfl, rfl, fun column => ?_⟩
  rw [Counts.sum?_eq_some_iff.mp hc column, List.map_map]; rfl

end Census

/-! ## Skipping -/

section
variable (tree : FileTree) (o : Options) (roots : List Path)

theorem distinct_found :
    Path.distinct (roots.filterMap fun r => (o.discover tree r).toOption).flatten =
      o.targets tree roots :=
  Path.distinct_eq_withoutRepeats _

theorem census_skip_of_overflow
    (h : ∃ p ∈ o.targets tree roots, o.countFile tree p = .error .overflow) :
    census tree { o with onFailure := .skip } roots = .error .overflow := by
  rw [census_eq, settle_skip, got_roots]
  dsimp only
  rw [distinct_found, countAll_of_overflow tree o h]

theorem census_skip_of_no_overflow
    (h : ∀ p ∈ o.targets tree roots, o.countFile tree p ≠ .error .overflow) :
    census tree { o with onFailure := .skip } roots =
      match Census.of? (o.files tree roots) (o.skipped tree roots) with
      | none => .error .overflow
      | some c => .ok c := by
  obtain ⟨counted, hc, hgot, hskips⟩ := countAll_of_no_overflow tree o h
  rw [census_eq, settle_skip, got_roots, skips_roots]
  dsimp only
  rw [distinct_found, hc]
  dsimp only
  rw [settle_skip, hgot, hskips]
  rfl

variable {tree o roots}

theorem census_skip_of_overflows (h : o.Overflows tree roots) :
    census tree { o with onFailure := .skip } roots = .error .overflow := by
  by_cases hp : ∃ p ∈ o.targets tree roots, o.countFile tree p = .error .overflow
  · exact census_skip_of_overflow tree o roots hp
  · obtain ⟨column, hs⟩ := h.resolve_left hp
    rw [census_skip_of_no_overflow tree o roots fun p hm he => hp ⟨p, hm, he⟩,
      Census.of?_eq_none_iff.mpr ⟨column, hs⟩]

theorem not_overflows_of_census {c : Census}
    (h : census tree { o with onFailure := .skip } roots = .ok c) : ¬ o.Overflows tree roots := by
  intro ho
  rw [census_skip_of_overflows ho] at h
  cases h

theorem no_overflow_of_not_overflows (h : ¬ o.Overflows tree roots) :
    ∀ p ∈ o.targets tree roots, o.countFile tree p ≠ .error .overflow :=
  fun p hm he => h (Or.inl ⟨p, hm, he⟩)

theorem exists_census_skip (h : ¬ o.Overflows tree roots) : ∃ c,
    Census.of? (o.files tree roots) (o.skipped tree roots) = some c ∧
    census tree { o with onFailure := .skip } roots = .ok c := by
  rw [census_skip_of_no_overflow tree o roots (no_overflow_of_not_overflows h)]
  cases hc : Census.of? (o.files tree roots) (o.skipped tree roots) with
  | none => exact absurd (Or.inr (Census.of?_eq_none_iff.mp hc)) h
  | some c => exact ⟨c, rfl, rfl⟩

/-- Whatever the policy, a census holds the total of all targets that can be counted. -/
theorem exists_of?_of_census {c : Census} (h : census tree o roots = .ok c) :
    ∃ skipped, Census.of? (o.files tree roots) skipped = some c := by
  have he := census_eq tree o o.onFailure roots
  rw [show { o with onFailure := o.onFailure } = o from rfl, h] at he
  split at he
  · cases he
  · next found skippedPaths hr =>
    rw [eq_got_of_settle hr, got_roots, distinct_found] at he
    split at he
    · cases he
    · next counted hk =>
      obtain ⟨counted', hk', hgot, -⟩ := countAll_of_no_overflow tree o fun p hp ho => by
        rw [countAll_of_overflow tree o ⟨p, hp, ho⟩] at hk
        cases hk
      rw [hk'] at hk
      cases hk
      split at he
      · cases he
      · next files skippedFiles hf =>
        rw [eq_got_of_settle hf, hgot] at he
        split at he
        · cases he
        · next c' hc =>
          cases he
          exact ⟨_, hc⟩

theorem files_of_census {c : Census} (h : census tree o roots = .ok c) :
    c.files = o.files tree roots := by
  obtain ⟨skipped, hc⟩ := exists_of?_of_census h
  exact (Census.of_of?_eq_some hc).1

end

end LineCensus
