import LineCensus.Proofs.Accounting
import LineCensus.Proofs.Spellings
import Mathlib.Data.List.Forall2

/-!
# Other paths for the same files

The order of the paths given decides which spelling of a file is kept and where it stands, and nothing
else (`census_perm`): the results for one file do not depend on how its path is spelled.

What is found stands for itself. So a census of paths that all lead somewhere is the census of the
files found under them, given one by one (`census_found`).
-/

namespace LineCensus

def Entry.unspelled (e : Entry) : List Path.Component × Counts :=
  (Path.components (Path.ofText e.name), e.counts)

def Skip.unspelled (s : Skip) : List Path.Component :=
  Path.components s.path

/-- Equal but for the order of files and skips and the spelling of their paths. -/
structure Census.Alike (c c' : Census) : Prop where
  files : (c.files.map Entry.unspelled).Perm (c'.files.map Entry.unspelled)
  total : c.total = c'.total
  skipped : (c.skipped.map Skip.unspelled).Perm (c'.skipped.map Skip.unspelled)

/-! ## Results by components -/

theorem perm_filterMap_of_key {α β κ : Type} {key : α → κ} {f : α → Option β} {as bs : List α}
    (h : (as.map key).Perm (bs.map key))
    (hf : ∀ a ∈ as, ∀ b ∈ bs, key a = key b → f a = f b) :
    (as.filterMap f).Perm (bs.filterMap f) := by
  induction as generalizing bs with
  | nil => rw [List.map_eq_nil_iff.mp (List.nil_perm.mp h)]
  | cons a as ih =>
    obtain ⟨b, hb, he⟩ := List.mem_map.mp (h.subset (List.mem_cons_self ..))
    obtain ⟨l, r, rfl⟩ := List.append_of_mem hb
    have hm : (l ++ b :: r).Perm (b :: (l ++ r)) := List.perm_middle
    have hrest : (as.map key).Perm ((l ++ r).map key) := by
      have hk := h.trans (hm.map key)
      rw [List.map_cons, List.map_cons, he] at hk
      exact hk.cons_inv
    have ih := ih hrest fun a' ha' b' hb' =>
      hf a' (List.mem_cons_of_mem _ ha') b' (hm.mem_iff.mpr (List.mem_cons_of_mem _ hb'))
    refine List.Perm.trans ?_ (hm.filterMap f).symm
    have hab := hf a (List.mem_cons_self ..) b hb he.symm
    cases hb : f b with
    | none => rwa [List.filterMap_cons_none (hab.trans hb), List.filterMap_cons_none hb]
    | some c =>
      rw [List.filterMap_cons_some (hab.trans hb), List.filterMap_cons_some hb]
      exact ih.cons c

namespace Options
variable {tree : FileTree} {o : Options} {p q : Path}

section
variable (h : Path.components p = Path.components q)
  (hp : tree.LeadsToFile p) (hq : tree.LeadsToFile q)
include h hp hq

theorem countFile_cases :
    (∃ counts, o.countFile tree p = .ok ⟨Path.shown p, counts⟩ ∧
        o.countFile tree q = .ok ⟨Path.shown q, counts⟩) ∨
      (o.countFile tree p = .error .overflow ∧ o.countFile tree q = .error .overflow) ∨
      ∃ failure failure', o.countFile tree p = .error (.failed failure) ∧
        o.countFile tree q = .error (.failed failure') := by
  unfold countFile LineCensus.countFile
  rw [o.languageOf?_eq h, FileTree.read_eq h hp hq]
  cases o.languageOf? q with
  | none => exact Or.inr (Or.inr ⟨_, _, rfl, rfl⟩)
  | some l =>
    cases tree.read q with
    | error obstacle => exact Or.inr (Or.inr ⟨_, _, rfl, rfl⟩)
    | ok bytes =>
      dsimp only
      cases countBytes? l.rules o.blankInBlock bytes with
      | none => exact Or.inr (Or.inl ⟨rfl, rfl⟩)
      | some counts => exact Or.inl ⟨counts, rfl, rfl⟩

theorem overflow_of_overflow (ho : o.countFile tree p = .error .overflow) :
    o.countFile tree q = .error .overflow := by
  rcases countFile_cases h hp hq with ⟨_, hc, -⟩ | ⟨-, hc⟩ | ⟨_, _, hc, -⟩
  · rw [hc] at ho; cases ho
  · exact hc
  · rw [hc] at ho; cases ho

theorem counted?_unspelled :
    (o.counted? tree p).map Entry.unspelled = (o.counted? tree q).map Entry.unspelled := by
  unfold counted?
  rcases countFile_cases (o := o) h hp hq with ⟨counts, hc, hc'⟩ | ⟨hc, hc'⟩ | ⟨_, _, hc, hc'⟩
  · rw [hc, hc']
    simp [Except.toOption, Entry.unspelled, Path.components_shown h]
  · rw [hc, hc']
  · rw [hc, hc']; rfl

theorem fileSkip?_unspelled :
    (o.fileSkip? tree p).map Skip.unspelled = (o.fileSkip? tree q).map Skip.unspelled := by
  unfold fileSkip?
  rcases countFile_cases (o := o) h hp hq with ⟨counts, hc, hc'⟩ | ⟨hc, hc'⟩ | ⟨_, _, hc, hc'⟩
  · rw [hc, hc']
  · rw [hc, hc']
  · rw [hc, hc']
    simp [Skip.unspelled, h]

end

/-! ## Targets of permuted paths -/

section
variable {roots roots' : List Path} (h : roots.Perm roots')
include h

theorem perm_targets : ((o.targets tree roots).map Path.components).Perm
    ((o.targets tree roots').map Path.components) :=
  Path.perm_components_withoutRepeats (h.filterMap _).flatten

theorem perm_filterMap_targets {β : Type} {f : Path → Option β}
    (hf : ∀ {p q}, Path.components p = Path.components q → tree.LeadsToFile p →
      tree.LeadsToFile q → f p = f q) :
    ((o.targets tree roots).filterMap f).Perm ((o.targets tree roots').filterMap f) :=
  perm_filterMap_of_key (perm_targets h) fun _ hp _ hq he =>
    hf he (of_mem_targets hp).1 (of_mem_targets hq).1

theorem perm_files : ((o.files tree roots).map Entry.unspelled).Perm
    ((o.files tree roots').map Entry.unspelled) := by
  rw [files, files, List.map_filterMap, List.map_filterMap]
  exact perm_filterMap_targets h counted?_unspelled

theorem perm_skipped : ((o.skipped tree roots).map Skip.unspelled).Perm
    ((o.skipped tree roots').map Skip.unspelled) := by
  rw [skipped, skipped, List.map_append, List.map_append]
  refine List.Perm.append ((h.filterMap _).map _) ?_
  rw [List.map_filterMap, List.map_filterMap]
  exact perm_filterMap_targets h fileSkip?_unspelled

theorem sum_files_eq (column : Counts.Column) :
    ((o.files tree roots).map (·.counts.get column)).sum =
      ((o.files tree roots').map (·.counts.get column)).sum := by
  have hp : ((o.files tree roots).map Entry.unspelled).Perm
      ((o.files tree roots').map Entry.unspelled) := perm_files h
  have hs := (hp.map (·.2.get column)).sum_nat
  rwa [List.map_map, List.map_map] at hs

theorem overflows_of_perm (ho : o.Overflows tree roots) : o.Overflows tree roots' := by
  rcases ho with ⟨p, hp, ho⟩ | ⟨column, hs⟩
  · obtain ⟨q, hq, he⟩ := List.mem_map.mp ((perm_targets h).subset (List.mem_map_of_mem hp))
    exact Or.inl ⟨q, hq,
      overflow_of_overflow he.symm (of_mem_targets hp).1 (of_mem_targets hq).1 ho⟩
  · exact Or.inr ⟨column, by rwa [← sum_files_eq h column]⟩

end

/-! ## A path given again -/

theorem targets_append_again {roots : List Path} {r : Path} (hr : r ∈ roots) :
    o.targets tree (roots ++ [r]) = o.targets tree roots := by
  rw [targets, targets, List.filterMap_append, List.flatten_append]
  apply Path.withoutRepeats_append_of_subset
  intro p hp
  obtain ⟨found, hf, hp⟩ := List.mem_flatten.mp hp
  obtain ⟨_, hm, hd⟩ := List.mem_filterMap.mp hf
  rw [List.mem_singleton.mp hm] at hd
  exact List.mem_flatten.mpr ⟨found, List.mem_filterMap.mpr ⟨r, hr, hd⟩, hp⟩

end Options

section
variable {tree : FileTree} {o : Options} {roots : List Path}

theorem alike_of_of? {roots' : List Path} (h : roots.Perm roots') {c c' : Census}
    (hc : Census.of? (o.files tree roots) (o.skipped tree roots) = some c)
    (hc' : Census.of? (o.files tree roots') (o.skipped tree roots') = some c') : c.Alike c' := by
  obtain ⟨hf, hs, hn, ht⟩ := Census.of_of?_eq_some hc
  obtain ⟨hf', hs', hn', ht'⟩ := Census.of_of?_eq_some hc'
  have hp : ((o.files tree roots).map Entry.unspelled).Perm
      ((o.files tree roots').map Entry.unspelled) := Options.perm_files h
  refine ⟨by rw [hf, hf']; exact hp, ?_, by rw [hs, hs']; exact Options.perm_skipped h⟩
  have hname : c.total.name = c'.total.name := by
    have hl := hp.length_eq
    rw [List.length_map, List.length_map] at hl
    rw [hn, hn', hl]
  have hcounts : c.total.counts = c'.total.counts :=
    Counts.ext_get fun column => by rw [ht, ht', Options.sum_files_eq h]
  exact congrArg₂ Entry.mk hname hcounts

theorem census_append_again {r : Path} (hr : r ∈ roots)
    (hx : ∃ place, tree.resolve r = .ok place) :
    census tree { o with onFailure := .skip } (roots ++ [r]) =
      census tree { o with onFailure := .skip } roots := by
  have ht : o.targets tree (roots ++ [r]) = o.targets tree roots :=
    Options.targets_append_again hr
  have hf : o.files tree (roots ++ [r]) = o.files tree roots := by
    rw [Options.files, ht, Options.files]
  have hs : o.skipped tree (roots ++ [r]) = o.skipped tree roots := by
    obtain ⟨place, hx⟩ := hx
    have hn : [r].filterMap (o.rootSkip? tree) = [] := by
      rw [List.filterMap_cons_none (Options.rootSkip?_eq_none hx), List.filterMap_nil]
    rw [Options.skipped, ht, List.filterMap_append, hn, List.append_nil, Options.skipped]
  by_cases ho : o.Overflows tree roots
  · have ho' : o.Overflows tree (roots ++ [r]) := by
      rwa [Options.Overflows, ht, hf]
    rw [census_skip_of_overflows ho, census_skip_of_overflows ho']
  · have ho' : ¬ o.Overflows tree (roots ++ [r]) := by
      rwa [Options.Overflows, ht, hf]
    obtain ⟨c, hc, he⟩ := exists_census_skip ho
    obtain ⟨c', hc', he'⟩ := exists_census_skip ho'
    rw [hf, hs, hc] at hc'
    rw [he, he', Option.some.inj hc']

end

/-- The order of the paths given changes neither whether there is a census nor what it counts, and a
path that leads somewhere can be given again. -/
theorem census_perm (tree : FileTree) (o : Options) (roots : List Path)
    (hs : o.onFailure = .skip) :
    (∀ roots', roots.Perm roots' →
      (census tree o roots = .error .overflow ∧ census tree o roots' = .error .overflow) ∨
        ∃ c c', census tree o roots = .ok c ∧ census tree o roots' = .ok c' ∧ c.Alike c') ∧
      ∀ r ∈ roots, (∃ place, tree.resolve r = .ok place) →
        census tree o (roots ++ [r]) = census tree o roots := by
  have hskip : { o with onFailure := .skip } = o := by rw [← hs]
  constructor
  · intro roots' h
    by_cases ho : o.Overflows tree roots
    · have he := census_skip_of_overflows ho
      have he' := census_skip_of_overflows (Options.overflows_of_perm h ho)
      rw [hskip] at he he'
      exact Or.inl ⟨he, he'⟩
    · obtain ⟨c, hc, he⟩ := exists_census_skip ho
      obtain ⟨c', hc', he'⟩ := exists_census_skip fun ho' =>
        ho (Options.overflows_of_perm h.symm ho')
      rw [hskip] at he he'
      exact Or.inr ⟨c, c', he, he', alike_of_of? h hc hc'⟩
  · intro r hr hx
    have ha := census_append_again (o := o) hr hx
    rwa [hskip] at ha

theorem census_perm_sample : sampleOptions.onFailure = .skip ∧
    sampleRoots.Perm sampleRoots.reverse ∧
    (∃ c c', census sampleTree sampleOptions sampleRoots = .ok c ∧
      census sampleTree sampleOptions sampleRoots.reverse = .ok c' ∧ c.Alike c' ∧
      c.files.map Entry.name = ["d/a.rb".toList] ∧
      c'.files.map Entry.name = ["d//a.rb".toList]) ∧
    Path.ofText "d".toList ∈ sampleRoots ∧
    (∃ place, sampleTree.resolve (Path.ofText "d".toList) = .ok place) ∧
    census sampleTree sampleOptions (sampleRoots ++ [Path.ofText "d".toList]) =
      census sampleTree sampleOptions sampleRoots := by
  obtain ⟨hperm, hagain⟩ := census_perm sampleTree sampleOptions sampleRoots rfl
  have hp : sampleRoots.Perm sampleRoots.reverse := (List.reverse_perm _).symm
  have hs := sample_outcome
  have hr : (census sampleTree sampleOptions sampleRoots.reverse).toOption.map
      (·.files.map Entry.name) = some ["d//a.rb".toList] := by decide +kernel
  have hd : ∃ place, sampleTree.resolve (Path.ofText "d".toList) = .ok place :=
    ⟨[Name.ofText "d".toList (by decide)], by decide +kernel⟩
  have hm : Path.ofText "d".toList ∈ sampleRoots := by decide
  refine ⟨rfl, hp, ?_, hm, hd, hagain _ hm hd⟩
  rcases hperm _ hp with ⟨he, -⟩ | ⟨c, c', he, he', ha⟩
  · rw [he] at hs; cases hs
  · rw [he] at hs
    rw [he'] at hr
    injection hs with hs
    injection hs with hf _
    exact ⟨c, c', he, he', ha, hf, Option.some.inj hr⟩

open List (Forall₂)

/-! ## Results that are all there -/

theorem mapM_eq_ok_iff {α β ε : Type} {f : α → Except ε β} {as : List α} {bs : List β} :
    as.mapM f = .ok bs ↔ Forall₂ (fun a b => f a = .ok b) as bs := by
  induction as generalizing bs with
  | nil =>
    rw [List.mapM_nil, List.forall₂_nil_left_iff]
    exact ⟨fun h => (Except.ok.inj h).symm, fun h => h ▸ rfl⟩
  | cons a as ih =>
    rw [List.mapM_cons, List.forall₂_cons_left_iff]
    cases ha : f a with
    | error e =>
      refine iff_of_false nofun ?_
      rintro ⟨b, bs', hb, -⟩
      cases hb
    | ok b =>
      cases hm : as.mapM f with
      | error e =>
        refine iff_of_false nofun ?_
        rintro ⟨b', bs', -, hbs, -⟩
        rw [ih.mpr hbs] at hm
        cases hm
      | ok bs' =>
        constructor
        · intro h
          exact ⟨b, bs', rfl, ih.mp hm, (Except.ok.inj h).symm⟩
        · rintro ⟨b', bs'', hb, hbs, rfl⟩
          cases hb
          rw [ih.mpr hbs] at hm
          cases hm
          rfl

theorem settle_of_forall₂ {α : Type} (policy : OnFailure) {f : Path → Except Failure α}
    {paths : List Path} {as : List α} (h : Forall₂ (fun p a => f p = .ok a) paths as) :
    settle policy (paths.map fun p => (p, f p)) = .ok (as, []) := by
  induction h with
  | nil => rfl
  | cons ha _ ih => rw [List.map_cons, ha, settle, ih]; rfl

section
variable {tree : FileTree} {o : Options} {roots : List Path}

theorem exists_discover {r : Path} (h : ∃ place, tree.resolve r = .ok place) :
    ∃ found, o.discover tree r = .ok found := by
  cases hd : o.discover tree r with
  | ok found => exact ⟨found, rfl⟩
  | error failure =>
    obtain ⟨-, obstacle, he⟩ := FileTree.discover_eq_error_iff.mp hd
    obtain ⟨place, hr⟩ := h
    rw [hr] at he
    cases he

theorem exists_forall₂_discover (h : ∀ r ∈ roots, ∃ place, tree.resolve r = .ok place) :
    ∃ found, Forall₂ (fun r f => o.discover tree r = .ok f) roots found := by
  induction roots with
  | nil => exact ⟨[], .nil⟩
  | cons r roots ih =>
    obtain ⟨found, hf⟩ := ih fun r' hr' => h r' (List.mem_cons_of_mem _ hr')
    obtain ⟨f, hd⟩ := exists_discover (o := o) (h r (List.mem_cons_self ..))
    exact ⟨f :: found, .cons hd hf⟩

/-! ## Files found again -/

theorem census_congr {roots' : List Path} {found found' : List (List Path)}
    (h : Forall₂ (fun r f => o.discover tree r = .ok f) roots found)
    (h' : Forall₂ (fun r f => o.discover tree r = .ok f) roots' found')
    (he : found.flatten = found'.flatten) : census tree o roots = census tree o roots' := by
  have hc := census_eq tree o o.onFailure roots
  have hc' := census_eq tree o o.onFailure roots'
  rw [settle_of_forall₂ o.onFailure h] at hc
  rw [settle_of_forall₂ o.onFailure h'] at hc'
  dsimp only at hc hc'
  rw [hc, hc', he]

theorem forall₂_discover_found {found : List Path}
    (h : ∀ p ∈ found, o.discover tree p = .ok [p]) :
    Forall₂ (fun r f => o.discover tree r = .ok f) found (found.map ([·])) := by
  rw [List.forall₂_map_right_iff, List.forall₂_same]
  exact h

theorem discover_of_mem_flatten {found : List (List Path)} {p : Path}
    (h : Forall₂ (fun r f => o.discover tree r = .ok f) roots found) (hp : p ∈ found.flatten) :
    o.discover tree p = .ok [p] := by
  induction h with
  | nil => cases hp
  | cons hd _ ih =>
    rcases List.mem_append.mp hp with hp | hp
    · exact FileTree.discover_of_mem_discover hd hp
    · exact ih hp

end

/-- A directory counts like the list of the files found in it. -/
theorem census_found (tree : FileTree) (o : Options) (roots : List Path)
    (h : ∀ r ∈ roots, ∃ place, tree.resolve r = .ok place) :
    ∃ found, roots.mapM (o.discover tree) = .ok found ∧
      census tree o found.flatten = census tree o roots := by
  obtain ⟨found, hf⟩ := exists_forall₂_discover (o := o) h
  refine ⟨found, mapM_eq_ok_iff.mpr hf, ?_⟩
  have hagain : ∀ p ∈ found.flatten, o.discover tree p = .ok [p] :=
    fun p hp => discover_of_mem_flatten hf hp
  refine census_congr (forall₂_discover_found hagain) hf ?_
  rw [← List.flatMap_def, List.flatMap_singleton']

def foundRoots : List Path :=
  ["d", "d//a.rb", "b"].map fun s => Path.ofText s.toList

theorem census_found_sample :
    (∀ r ∈ foundRoots, ∃ place, sampleTree.resolve r = .ok place) ∧
    foundRoots.mapM (sampleOptions.discover sampleTree) =
      .ok (["d/a.rb", "d//a.rb", "b"].map fun s => [Path.ofText s.toList]) ∧
    census sampleTree sampleOptions
        (["d/a.rb", "d//a.rb", "b"].map fun s => Path.ofText s.toList) =
      census sampleTree sampleOptions foundRoots := by
  have hx : ∀ r ∈ foundRoots, ∃ place, sampleTree.resolve r = .ok place := by
    intro r hr
    have hd : ((sampleTree.resolve r).toOption).isSome = true := by
      revert r
      decide +kernel
    cases hp : sampleTree.resolve r with
    | error obstacle => rw [hp] at hd; cases hd
    | ok place => exact ⟨place, rfl⟩
  have hm : foundRoots.mapM (sampleOptions.discover sampleTree) =
      .ok (["d/a.rb", "d//a.rb", "b"].map fun s => [Path.ofText s.toList]) := by
    decide +kernel
  obtain ⟨found, hf, hc⟩ := census_found sampleTree sampleOptions _ hx
  rw [hm] at hf
  cases hf
  exact ⟨hx, hm, hc⟩

end LineCensus
