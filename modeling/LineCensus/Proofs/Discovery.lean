import LineCensus.Discover

/-! # What discovery finds -/

namespace LineCensus

/-- Exclusion wins, and without inclusions whatever is not excluded is taken. -/
theorem Filter.admits_iff {f : Filter} {path : Path} : f.admits path = true ↔
    (∀ g ∈ f.excluded, g.fits (Path.shown path) = false) ∧
      (f.included = [] ∨ ∃ g ∈ f.included, g.fits (Path.shown path) = true) := by
  simp [admits]

namespace FileTree

def LeadsToFile (tree : FileTree) (path : Path) : Prop :=
  ∃ place f, tree.resolve path = .ok place ∧ tree.node? place = some (.file f)

variable {tree : FileTree}

def filesUnder (tree : FileTree) (levels : Nat) (above : List Location) (path : Path)
    (place : Location) (n : Name) : List Path :=
  let child := Path.join path n.bytes
  match tree.resolve child with
  | .error _ => []
  | .ok target =>
    match tree.node? target with
    | some (.file _) => [child]
    | some .directory =>
      if n.hidden || (tree.isLink (n :: place) && (place :: above).contains target) then []
      else tree.filesBelow levels (place :: above) child target
    | _ => []

theorem filesBelow_succ (levels : Nat) (above : List Location) (path : Path) (place : Location) :
    tree.filesBelow (levels + 1) above path place =
      (tree.names place).flatMap (tree.filesUnder levels above path place) := rfl

theorem mem_filesBelow_succ_iff {levels : Nat} {above : List Location} {path p : Path}
    {place : Location} : p ∈ tree.filesBelow (levels + 1) above path place ↔
      ∃ n ∈ tree.names place, p ∈ tree.filesUnder levels above path place n :=
  List.mem_flatMap

theorem mem_filesUnder_iff {levels : Nat} {above : List Location} {path p : Path}
    {place : Location} {n : Name} : p ∈ tree.filesUnder levels above path place n ↔
      ∃ target, tree.resolve (Path.join path n.bytes) = .ok target ∧
        ((∃ f, tree.node? target = some (.file f) ∧ p = Path.join path n.bytes) ∨
          tree.node? target = some .directory ∧
            ¬ (n.hidden || (tree.isLink (n :: place) && (place :: above).contains target)) = true ∧
            p ∈ tree.filesBelow levels (place :: above) (Path.join path n.bytes) target) := by
  unfold filesUnder
  dsimp only
  cases hr : tree.resolve (Path.join path n.bytes) with
  | error obstacle => simp
  | ok target =>
    dsimp only
    cases hn : tree.node? target with
    | none => simp [hn]
    | some node =>
      cases node with
      | file | directory | link | device => simp [hn]

theorem leadsToFile_of_mem_filesBelow {levels : Nat} {above : List Location} {path p : Path}
    {place : Location} (h : p ∈ tree.filesBelow levels above path place) : tree.LeadsToFile p := by
  induction levels generalizing above path place with
  | zero => cases h
  | succ levels ih =>
    obtain ⟨n, -, h⟩ := mem_filesBelow_succ_iff.mp h
    obtain ⟨target, hr, ⟨f, hc, rfl⟩ | ⟨-, -, h⟩⟩ := mem_filesUnder_iff.mp h
    · exact ⟨target, f, hr, hc⟩
    · exact ih h

section
variable {filter : Filter} {accept : Path → Bool} {path : Path}

theorem discover_eq_error_iff {failure : Failure} :
    tree.discover filter accept path = .error failure ↔
      failure = .missing path ∧ ∃ obstacle, tree.resolve path = .error obstacle := by
  unfold discover
  cases hr : tree.resolve path with
  | error obstacle => simp [eq_comm]
  | ok place =>
    dsimp only
    split <;> simp

section
variable {place : Location} (hr : tree.resolve path = .ok place)
include hr

theorem discover_of_file {f : File} (hn : tree.node? place = some (.file f)) :
    tree.discover filter accept path = .ok (if filter.admits path then [path] else []) := by
  unfold discover
  rw [hr]
  dsimp only
  rw [hn]

theorem discover_of_directory (hn : tree.node? place = some .directory) :
    tree.discover filter accept path =
      .ok (((tree.filesBelow (levels filter.recursive) [] path place).filter fun p =>
        filter.admits p && accept p).mergeSort fun p q => !Path.before q p) := by
  unfold discover
  rw [hr]
  dsimp only
  rw [hn]

end

theorem discover_cases {found : List Path} {p : Path}
    (h : tree.discover filter accept path = .ok found) (hp : p ∈ found) :
    ∃ place, tree.resolve path = .ok place ∧
      ((∃ f, tree.node? place = some (.file f) ∧ p = path) ∨
        tree.node? place = some .directory ∧ accept p = true ∧
          p ∈ tree.filesBelow (levels filter.recursive) [] path place) := by
  unfold discover at h
  split at h
  · cases h
  · next place hr =>
    refine ⟨place, hr, ?_⟩
    split at h
    · next f hc =>
      cases h
      split at hp
      · exact Or.inl ⟨f, hc, List.mem_singleton.mp hp⟩
      · cases hp
    · next hd =>
      cases h
      rw [List.mem_mergeSort, List.mem_filter, Bool.and_eq_true] at hp
      exact Or.inr ⟨hd, hp.2.2, hp.1⟩
    · cases h; cases hp

theorem of_mem_discover {found : List Path} {p : Path}
    (h : tree.discover filter accept path = .ok found) (hp : p ∈ found) :
    tree.LeadsToFile p ∧ (p = path ∨ accept p = true) := by
  obtain ⟨place, hr, ⟨f, hc, rfl⟩ | ⟨-, ha, hb⟩⟩ := discover_cases h hp
  · exact ⟨⟨place, f, hr, hc⟩, Or.inl rfl⟩
  · exact ⟨leadsToFile_of_mem_filesBelow hb, Or.inr ha⟩

theorem admits_of_mem_discover {found : List Path} {p : Path}
    (h : tree.discover filter accept path = .ok found) (hp : p ∈ found) :
    filter.admits p = true := by
  obtain ⟨place, hr, ⟨f, hn, rfl⟩ | ⟨hn, -, -⟩⟩ := discover_cases h hp
  · rw [discover_of_file hr hn] at h
    cases h
    split at hp
    · assumption
    · cases hp
  · rw [discover_of_directory hr hn] at h
    cases h
    rw [List.mem_mergeSort, List.mem_filter, Bool.and_eq_true] at hp
    exact hp.2.1

/-- What is found stands for itself. -/
theorem discover_of_mem_discover {found : List Path} {p : Path}
    (h : tree.discover filter accept path = .ok found) (hp : p ∈ found) :
    tree.discover filter accept p = .ok [p] := by
  obtain ⟨place, f, hr, hn⟩ := (of_mem_discover h hp).1
  rw [discover_of_file hr hn, if_pos (admits_of_mem_discover h hp)]

end

end FileTree

end LineCensus
