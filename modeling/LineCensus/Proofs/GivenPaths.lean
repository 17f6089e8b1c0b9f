import LineCensus.Proofs.Accounting
import LineCensus.Proofs.Spellings

/-!
# Given paths that are no directories

A census that skips what fails lists every given file that passes the globs, as counted or as
skipped. What can be opened and is neither a file nor a directory is left out without a word
(`census_lists_iff`).
-/

namespace LineCensus

/-- One of the paths counted, or a skip, is the path, however that is spelled. -/
def Census.Lists (c : Census) (counted : List Path) (path : Path) : Prop :=
  (∃ p ∈ counted, Path.components p = Path.components path) ∨
    ∃ s ∈ c.skipped, Path.components s.path = Path.components path

namespace Options
variable {tree : FileTree} {o : Options} {roots : List Path}

/-! ## What is listed -/

theorem listed_of_mem_targets {p : Path} (ho : o.countFile tree p ≠ .error .overflow)
    (hp : p ∈ o.targets tree roots) :
    p ∈ o.countedPaths tree roots ∨ p ∈ (o.skipped tree roots).map Skip.path := by
  have hone := targets_once ho hp
  rw [← List.count_pos_iff, ← List.count_pos_iff]
  omega

theorem rootSkip?_eq_some {r : Path} {obstacle : Obstacle}
    (h : tree.resolve r = .error obstacle) : ∃ s, o.rootSkip? tree r = some s ∧ s.path = r := by
  have hd : o.discover tree r = .error (.missing r) :=
    FileTree.discover_eq_error_iff.mpr ⟨rfl, obstacle, h⟩
  rw [rootSkip?, hd]
  exact ⟨_, rfl, rfl⟩

theorem of_mem_skipped {s : Skip} (h : s ∈ o.skipped tree roots) :
    (s.path ∈ roots ∧ ∃ obstacle, tree.resolve s.path = .error obstacle) ∨
      s.path ∈ o.targets tree roots := by
  rcases List.mem_append.mp h with h | h
  · obtain ⟨r, hr, hs⟩ := List.mem_filterMap.mp h
    rw [path_of_skip hs]
    refine Or.inl ⟨hr, ?_⟩
    cases hx : tree.resolve r with
    | error obstacle => exact ⟨obstacle, rfl⟩
    | ok place => rw [rootSkip?_eq_none hx] at hs; cases hs
  · obtain ⟨p, hp, hs⟩ := List.mem_filterMap.mp h
    obtain ⟨failure, -, rfl⟩ := fileSkip?_eq_some_iff.mp hs
    exact Or.inr hp

theorem lists_iff {c : Census} (hs : c.skipped = o.skipped tree roots)
    (ho : ¬ o.Overflows tree roots) (path : Path) :
    c.Lists (o.countedPaths tree roots) path ↔
      (∃ p ∈ o.targets tree roots, Path.components p = Path.components path) ∨
        ∃ r ∈ roots, Path.components r = Path.components path ∧
          ∃ obstacle, tree.resolve r = .error obstacle := by
  unfold Census.Lists
  rw [hs]
  constructor
  · rintro (⟨p, hp, hc⟩ | ⟨s, hm, hc⟩)
    · exact Or.inl ⟨p, mem_targets_of_mem_countedPaths hp, hc⟩
    · rcases of_mem_skipped hm with ⟨hr, hx⟩ | hp
      · exact Or.inr ⟨s.path, hr, hc, hx⟩
      · exact Or.inl ⟨s.path, hp, hc⟩
  · rintro (⟨p, hp, hc⟩ | ⟨r, hr, hc, obstacle, hx⟩)
    · rcases listed_of_mem_targets (no_overflow_of_not_overflows ho p hp) hp with h | h
      · exact Or.inl ⟨p, h, hc⟩
      · obtain ⟨s, hm, rfl⟩ := List.mem_map.mp h
        exact Or.inr ⟨s, hm, hc⟩
    · obtain ⟨s, hm, rfl⟩ := rootSkip?_eq_some (o := o) hx
      exact Or.inr ⟨s, List.mem_append_left _ (List.mem_filterMap.mpr ⟨s.path, hr, hm⟩), hc⟩

/-! ## Targets that stand for a given path -/

theorem exists_target_of_mem {r p : Path} {found : List Path} (hr : r ∈ roots)
    (hd : o.discover tree r = .ok found) (hp : p ∈ found) :
    ∃ q ∈ o.targets tree roots, Path.components q = Path.components p := by
  have hm : p ∈ (roots.filterMap fun r => (o.discover tree r).toOption).flatten :=
    List.mem_flatten.mpr ⟨found, List.mem_filterMap.mpr ⟨r, hr, by rw [hd]; rfl⟩, hp⟩
  exact List.mem_map.mp (Path.mem_map_components_withoutRepeats.mpr (List.mem_map_of_mem hm))

theorem exists_target_iff {r : Path} {place : Location} (hr : r ∈ roots)
    (hp : tree.resolve r = .ok place) (ha : o.filter.admits r = true) :
    (∃ p ∈ o.targets tree roots, Path.components p = Path.components r) ↔ tree.LeadsToFile r := by
  constructor
  · rintro ⟨p, hm, hc⟩
    obtain ⟨place', f, hp', hn⟩ := (of_mem_targets hm).1
    exact ⟨place', f, FileTree.resolve_unique hc hp' hp ▸ hp, hn⟩
  · rintro ⟨place', f, hp', hn⟩
    have hd : o.discover tree r = .ok [r] := by
      unfold discover
      rw [FileTree.discover_of_file hp' hn, if_pos ha]
    exact exists_target_of_mem hr hd (List.mem_singleton_self r)

end Options

/-- A given path that leads somewhere and passes the globs is listed if it leads to a file. If not,
it is listed only where another spelling of it leads nowhere. -/
theorem census_lists_iff (tree : FileTree) (o : Options) (roots : List Path)
    (hs : o.onFailure = .skip) (ho : ¬ o.Overflows tree roots) :
    ∃ c, census tree o roots = .ok c ∧
      List.Forall₂ (CountsAs tree o) (o.countedPaths tree roots) c.files ∧
      ∀ r ∈ roots, ∀ place, tree.resolve r = .ok place → o.filter.admits r = true →
        (c.Lists (o.countedPaths tree roots) r ↔ tree.LeadsToFile r ∨
          ∃ r' ∈ roots, Path.components r' = Path.components r ∧
            ∃ obstacle, tree.resolve r' = .error obstacle) := by
  have hskip : { o with onFailure := .skip } = o := by rw [← hs]
  obtain ⟨c, hc, he⟩ := exists_census_skip ho
  rw [hskip] at he
  obtain ⟨hf, hk, -, -⟩ := Census.of_of?_eq_some hc
  refine ⟨c, he, ?_, fun r hr place hp ha => ?_⟩
  · rw [hf]
    exact Options.forall₂_files.imp fun _ _ => Options.countsAs_of_countFile
  · rw [Options.lists_iff hk ho r, Options.exists_target_iff hr hp ha]

/-! ## A device -/

def devicePlace : Location :=
  [Name.ofText "null".toList (by decide), Name.ofText "dev".toList (by decide)]

def deviceTree : FileTree :=
  [(devicePlace.tail, .directory), (devicePlace, .device),
    ([Name.ofText "c".toList (by decide)], .file ⟨[97], true⟩)].foldl
      (fun tree node => tree.put node.1 node.2) FileTree.empty

def devicePath : Path :=
  Path.ofText "/dev/null".toList

theorem resolve_device : deviceTree.resolve devicePath = .ok devicePlace := by
  decide +kernel

theorem node?_device : deviceTree.node? devicePlace = some .device := by
  decide +kernel

theorem census_lists_iff_sample :
    sampleOptions.onFailure = .skip ∧
    ¬ sampleOptions.Overflows deviceTree [devicePath, Path.ofText "c".toList] ∧
    ∃ c, census deviceTree sampleOptions [devicePath, Path.ofText "c".toList] = .ok c ∧
      c.files = [] ∧ c.skipped.map Skip.path = [Path.ofText "c".toList] ∧
      c.Lists [] (Path.ofText "c".toList) ∧ ¬ c.Lists [] devicePath := by
  have hr : (census deviceTree sampleOptions [devicePath, Path.ofText "c".toList]).toOption.map
      (fun c => (c.files, c.skipped.map Skip.path)) = some ([], [Path.ofText "c".toList]) := by
    decide +kernel
  have hb : deviceTree.resolve (Path.ofText "c".toList) =
      .ok [Name.ofText "c".toList (by decide)] := by decide +kernel
  have ho : ¬ sampleOptions.Overflows deviceTree [devicePath, Path.ofText "c".toList] := by
    cases hc : census deviceTree sampleOptions [devicePath, Path.ofText "c".toList] with
    | error stop => rw [hc] at hr; cases hr
    | ok c => exact not_overflows_of_census hc
  obtain ⟨c, hc, hcounted, hl⟩ := census_lists_iff deviceTree sampleOptions _ rfl ho
  rw [hc] at hr
  injection hr with hr
  injection hr with hf hs
  rw [hf, List.forall₂_nil_right_iff] at hcounted
  rw [hcounted] at hl
  refine ⟨rfl, ho, c, hc, hf, hs, ?_, ?_⟩
  · exact (hl _ (by decide) _ hb rfl).mpr (Or.inl ⟨_, ⟨[97], true⟩, hb, by decide +kernel⟩)
  · rw [hl devicePath (by decide) _ resolve_device rfl]
    rintro (⟨place, f, hp, hn⟩ | ⟨r, hr, -, obstacle, hx⟩)
    · rw [resolve_device] at hp
      cases hp
      rw [node?_device] at hn
      cases hn
    · rcases List.mem_pair.mp hr with rfl | rfl
      · rw [resolve_device] at hx; cases hx
      · rw [hb] at hx; cases hx

/-- What can be opened and is neither a file nor a directory disappears. -/
theorem census_leaves_out_device :
    (∃ place, deviceTree.resolve devicePath = .ok place ∧
      deviceTree.node? place ≠ some .directory) ∧
    sampleOptions.filter.admits devicePath = true ∧
    ∃ c, census deviceTree sampleOptions [devicePath] = .ok c ∧ c.files = [] ∧ c.skipped = [] := by
  have hr : (census deviceTree sampleOptions [devicePath]).toOption.map
      (fun c => (c.files, c.skipped)) = some ([], []) := by decide +kernel
  refine ⟨⟨devicePlace, resolve_device, by rw [node?_device]; nofun⟩, rfl, ?_⟩
  cases hc : census deviceTree sampleOptions [devicePath] with
  | error stop => rw [hc] at hr; cases hr
  | ok c =>
    rw [hc] at hr
    injection hr with hr
    injection hr with hf hs
    exact ⟨c, rfl, hf, hs⟩

end LineCensus
