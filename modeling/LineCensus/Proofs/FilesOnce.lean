import LineCensus.Proofs.Accounting
import LineCensus.Proofs.Walks
import Mathlib.Data.List.Pairwise

/-!
# Files counted twice

A census counts no two paths that are equal by components. In a tree without links that makes it
count every file once as long as the paths given are spelled from one start (`files_once`); a file
that is reached as `a` and as `./a` is counted twice (`files_twice`).
-/

namespace LineCensus

namespace FileTree

def Linkless (tree : FileTree) : Prop :=
  ∀ entry ∈ tree.nodes, ∀ target, entry.2 ≠ .link target

def SameFile (tree : FileTree) (p q : Path) : Prop :=
  ∃ place, tree.resolve p = .ok place ∧ tree.resolve q = .ok place

theorem SameFile.symm {tree : FileTree} {p q : Path} : tree.SameFile p q → tree.SameFile q p :=
  fun ⟨place, hp, hq⟩ => ⟨place, hq, hp⟩

/-! ## Places by spelling -/

/-- Where a path leads by its spelling, if it meets no link. -/
def spelled (tree : FileTree) (path : Path) : Location :=
  (steps path).foldl Step.next (origin tree.here path)

section
variable {tree : FileTree} (hl : tree.Linkless)
include hl

theorem node?_ne_link (place : Location) (target : Path) :
    tree.node? place ≠ some (.link target) := by
  unfold node?
  split
  · nofun
  · intro h
    exact hl (place, .link target) (mem_of_lookup h) target rfl

theorem walk_linkless {place : Location} {path : List Step}
    (h : ∀ obstacle, tree.walk false place path ≠ .blocked obstacle) :
    tree.walk false place path = .arrived (path.foldl Step.next place) := by
  induction path generalizing place with
  | nil => rfl
  | cons step rest ih =>
    rcases walk_cons_cases h with hw | ⟨n, target, -, hn, -⟩
    · rw [hw] at h ⊢
      exact ih h
    · exact absurd hn (node?_ne_link hl _ target)

theorem resolve_linkless {p : Path} {place : Location} (h : tree.resolve p = .ok place) :
    place = tree.spelled p := by
  have hf := follow_of_resolve h
  have hw := walk_linkless hl (walk_ne_blocked hf)
  rcases follow_cases hf with ha | ⟨_, _, _, _, -, ha, -⟩
  · rw [hw] at ha
    injection ha with ha
    exact ha.symm
  · rw [hw] at ha
    cases ha

theorem sameFile_iff {p q : Path} (hp : tree.LeadsToFile p) (hq : tree.LeadsToFile q) :
    tree.SameFile p q ↔ tree.spelled p = tree.spelled q := by
  obtain ⟨a, -, ha, -⟩ := hp
  obtain ⟨b, -, hb, -⟩ := hq
  rw [← resolve_linkless hl ha, ← resolve_linkless hl hb]
  constructor
  · rintro ⟨place, ha', hb'⟩
    rw [ha] at ha'
    rw [hb] at hb'
    rw [Except.ok.inj ha', Except.ok.inj hb']
  · rintro rfl
    exact ⟨a, ha, hb⟩

end

/-! ## Names behind a start -/

def nameComponents (names : List Name) : List Path.Component :=
  names.map fun n => .name n.bytes

theorem nameComponents_append (names names' : List Name) :
    nameComponents (names ++ names') = nameComponents names ++ nameComponents names' :=
  List.map_append

theorem foldl_next_moves (place : Location) (path : List Step) :
    (path.filter Step.moves).foldl Step.next place = path.foldl Step.next place := by
  induction path generalizing place with
  | nil => rfl
  | cons step rest ih =>
    by_cases hm : step.moves = true
    · rw [List.filter_cons_of_pos hm, List.foldl_cons, List.foldl_cons, ih]
    · rw [List.filter_cons_of_neg hm, List.foldl_cons, ih, Step.next_of_not_moves hm]

theorem foldl_next_names (place : Location) (names : List Name) :
    ((nameComponents names).filterMap Step.ofComponent?).foldl Step.next place =
      names.reverse ++ place := by
  induction names generalizing place with
  | nil => rfl
  | cons n names ih =>
    rw [nameComponents, List.map_cons, List.filterMap_cons_some (Step.ofComponent?_name n),
      List.foldl_cons, ← nameComponents, ih, List.reverse_cons, List.append_assoc]
    rfl

theorem spelled_eq (tree : FileTree) (start : List Path.Component) :
    ∃ base, ∀ p names, Path.components p = start ++ nameComponents names →
      tree.spelled p = names.reverse ++ base := by
  refine ⟨(start.filterMap Step.ofComponent?).foldl Step.next
    (if start.head? = some .root then [] else tree.here), fun p names h => ?_⟩
  have hr : (start ++ nameComponents names).head? = some .root ↔ start.head? = some .root := by
    cases start with
    | nil => cases names <;> simp [nameComponents]
    | cons c start => rfl
  rw [spelled, ← foldl_next_moves, moves_steps, origin_eq, h, List.filterMap_append,
    List.foldl_append, foldl_next_names, if_congr hr rfl rfl]

theorem components_eq_of_spelled_eq {tree : FileTree} {start : List Path.Component} {p q : Path}
    {names names' : List Name} (hp : Path.components p = start ++ nameComponents names)
    (hq : Path.components q = start ++ nameComponents names')
    (h : tree.spelled p = tree.spelled q) : Path.components p = Path.components q := by
  obtain ⟨base, hb⟩ := spelled_eq tree start
  rw [hb p names hp, hb q names' hq, List.append_cancel_right_eq, List.reverse_inj] at h
  rw [hp, hq, h]

variable {tree : FileTree}

theorem components_of_mem_filesBelow {levels : Nat} {above : List Location} {path p : Path}
    {place : Location} (hpath : path ≠ [])
    (h : p ∈ tree.filesBelow levels above path place) :
    ∃ names, Path.components p = Path.components path ++ nameComponents names := by
  obtain ⟨names, rfl⟩ := exists_joinAll_of_mem_filesBelow h
  exact ⟨names, Path.components_joinAll hpath names⟩

theorem components_of_mem_discover {filter : Filter} {accept : Path → Bool} {path p : Path}
    {found : List Path} (h : tree.discover filter accept path = .ok found) (hp : p ∈ found) :
    ∃ names, Path.components p = Path.components path ++ nameComponents names := by
  obtain ⟨place, hr, ⟨_, -, rfl⟩ | ⟨-, -, hb⟩⟩ := discover_cases h hp
  · exact ⟨[], (List.append_nil _).symm⟩
  · exact components_of_mem_filesBelow (ne_nil_of_resolve hr) hb

end FileTree

/-! ## The files of a census -/

section
variable {tree : FileTree} {o : Options} {roots : List Path}

theorem components_of_mem_targets {start : List Path.Component}
    (h : ∀ r ∈ roots, ∃ names, Path.components r = start ++ FileTree.nameComponents names)
    {p : Path} (hp : p ∈ o.targets tree roots) :
    ∃ names, Path.components p = start ++ FileTree.nameComponents names := by
  obtain ⟨r, hr, found, hd, hp⟩ := Options.discovered_of_mem_targets hp
  obtain ⟨names, hn⟩ := h r hr
  obtain ⟨names', hn'⟩ := FileTree.components_of_mem_discover hd hp
  rw [hn, List.append_assoc, ← FileTree.nameComponents_append] at hn'
  exact ⟨names ++ names', hn'⟩

theorem pairwise_components_countedPaths : (o.countedPaths tree roots).Pairwise
    fun p q => Path.components p ≠ Path.components q := by
  have hn : ((o.targets tree roots).map Path.components).Nodup :=
    Path.nodup_map_components_withoutRepeats _
  exact (List.pairwise_map.mp hn).filter _

variable (o roots) in
theorem pairwise_sameFile_iff (hl : tree.Linkless) :
    (o.countedPaths tree roots).Pairwise (fun p q => ¬ tree.SameFile p q) ↔
      ∀ p ∈ o.countedPaths tree roots, ∀ q ∈ o.countedPaths tree roots,
        tree.spelled p = tree.spelled q → Path.components p = Path.components q := by
  have hs : ∀ p ∈ o.countedPaths tree roots, ∀ q ∈ o.countedPaths tree roots,
      (tree.SameFile p q ↔ tree.spelled p = tree.spelled q) := fun p hp q hq =>
    FileTree.sameFile_iff hl (Options.of_mem_targets (Options.mem_targets_of_mem_countedPaths hp)).1
      (Options.of_mem_targets (Options.mem_targets_of_mem_countedPaths hq)).1
  have hsymm : Std.Symm fun p q : Path => ¬ tree.SameFile p q :=
    ⟨fun _ _ hn hsame => hn hsame.symm⟩
  constructor
  · intro hpair p hp q hq h
    refine Classical.byContradiction fun hne => ?_
    have hd : p ≠ q := fun h => hne (h ▸ rfl)
    exact hpair.forall hp hq hd ((hs p hp q hq).mpr h)
  · intro h
    refine List.Pairwise.imp_of_mem ?_ pairwise_components_countedPaths
    intro p q hp hq hne hsame
    exact hne (h p hp q hq ((hs p hp q hq).mp hsame))

end

/-- Files are counted once as long as the paths given differ only in the names behind one start.
Otherwise it takes two spellings of one place for a file to be counted twice. -/
theorem files_once (tree : FileTree) (o : Options) (roots : List Path) (c : Census)
    (hl : tree.Linkless) (hc : census tree o roots = .ok c) :
    List.Forall₂ (CountsAs tree o) (o.countedPaths tree roots) c.files ∧
    ((∃ start, ∀ r ∈ roots, ∃ names,
        Path.components r = start ++ FileTree.nameComponents names) →
      (o.countedPaths tree roots).Pairwise fun p q => ¬ tree.SameFile p q) ∧
    ((o.countedPaths tree roots).Pairwise (fun p q => ¬ tree.SameFile p q) ↔
      ∀ p ∈ o.countedPaths tree roots, ∀ q ∈ o.countedPaths tree roots,
        tree.spelled p = tree.spelled q → Path.components p = Path.components q) := by
  have hiff := pairwise_sameFile_iff o roots hl
  refine ⟨?_, fun ⟨start, hstart⟩ => hiff.mpr fun p hp q hq h => ?_, hiff⟩
  · rw [files_of_census hc]
    exact Options.forall₂_files.imp fun _ _ => Options.countsAs_of_countFile
  · obtain ⟨names, hn⟩ :=
      components_of_mem_targets hstart (Options.mem_targets_of_mem_countedPaths hp)
    obtain ⟨names', hn'⟩ :=
      components_of_mem_targets hstart (Options.mem_targets_of_mem_countedPaths hq)
    exact FileTree.components_eq_of_spelled_eq hn hn' h

theorem linkless_sampleTree : sampleTree.Linkless := by
  have hn : sampleTree.nodes.map Prod.snd =
      [.file ⟨[120], false⟩, .file ⟨[97], true⟩, .file ⟨[35, 10], true⟩, .directory] := by
    decide +kernel
  intro entry h target ht
  have hm := List.mem_map_of_mem (f := Prod.snd) h
  rw [hn, ht] at hm
  simp at hm

def onceRoots : List Path :=
  ["d", "d//a.rb"].map fun s => Path.ofText s.toList

theorem files_once_sample : sampleTree.Linkless ∧
    (∃ start, ∀ r ∈ onceRoots, ∃ names,
      Path.components r = start ++ FileTree.nameComponents names) ∧
    ∃ c, census sampleTree sampleOptions onceRoots = .ok c ∧
      c.files.map Entry.name = ["d/a.rb".toList] ∧
      (sampleOptions.countedPaths sampleTree onceRoots).Pairwise
        fun p q => ¬ sampleTree.SameFile p q := by
  have hr : (census sampleTree sampleOptions onceRoots).toOption.map
      (·.files.map Entry.name) = some ["d/a.rb".toList] := by decide +kernel
  have hstart : ∃ start, ∀ r ∈ onceRoots, ∃ names,
      Path.components r = start ++ FileTree.nameComponents names := by
    refine ⟨[], fun r hr => ?_⟩
    rcases List.mem_pair.mp hr with rfl | rfl
    · exact ⟨[Name.ofText "d".toList (by decide)], by decide⟩
    · exact ⟨[Name.ofText "d".toList (by decide), Name.ofText "a.rb".toList (by decide)],
        by decide⟩
  cases hc : census sampleTree sampleOptions onceRoots with
  | error stop => rw [hc] at hr; cases hr
  | ok c =>
    rw [hc] at hr
    exact ⟨linkless_sampleTree, hstart, c, rfl, Option.some.inj hr,
      (files_once _ _ _ c linkless_sampleTree hc).2.1 hstart⟩

def lonelyTree : FileTree :=
  FileTree.empty.put [sampleName] (.file ⟨[120, 10], true⟩)

/-- Walking `.` finds the file under another spelling than its own. -/
theorem files_twice : lonelyTree.Linkless ∧
    ∃ c, census lonelyTree sampleOptions [Path.ofText ".".toList, Path.ofText "a.rb".toList] =
        .ok c ∧
      c.files.map Entry.name = ["./a.rb".toList, "a.rb".toList] ∧
      lonelyTree.SameFile (Path.ofText "./a.rb".toList) (Path.ofText "a.rb".toList) := by
  have hl : lonelyTree.Linkless := by
    unfold FileTree.Linkless
    intro entry h target
    rw [List.mem_singleton.mp h]
    nofun
  have hr : (census lonelyTree sampleOptions
      [Path.ofText ".".toList, Path.ofText "a.rb".toList]).toOption.map
        (·.files.map Entry.name) = some ["./a.rb".toList, "a.rb".toList] := by decide +kernel
  have hsame : lonelyTree.SameFile (Path.ofText "./a.rb".toList) (Path.ofText "a.rb".toList) :=
    ⟨[sampleName], by decide +kernel⟩
  cases hc : census lonelyTree sampleOptions
      [Path.ofText ".".toList, Path.ofText "a.rb".toList] with
  | error stop => rw [hc] at hr; cases hr
  | ok c =>
    rw [hc] at hr
    exact ⟨hl, c, rfl, Option.some.inj hr, hsame⟩

end LineCensus
