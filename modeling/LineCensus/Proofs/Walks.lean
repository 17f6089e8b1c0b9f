import LineCensus.Proofs.Discovery
import LineCensus.Proofs.Keys
import LineCensus.Proofs.ShownPaths
import LineCensus.Proofs.Spellings
import Mathlib.Data.List.Nodup

/-!
# Walks down from a directory

A walk finds a file exactly if names joined to the path it starts from lead there, and all of them
but the last through directories that it enters (`mem_filesBelow_iff`). `discover_directory`: those
files that pass the globs and are accepted are what discovery returns, each once and in order.
-/

namespace LineCensus

/-! ## Names joined to a path -/

namespace Path

def joinAll (path : Path) (names : List Name) : Path :=
  names.foldl (fun p n => join p n.bytes) path

theorem joinAll_cons (path : Path) (n : Name) (names : List Name) :
    joinAll path (n :: names) = joinAll (join path n.bytes) names := rfl

theorem joinAll_snoc (path : Path) (names : List Name) (n : Name) :
    joinAll path (names ++ [n]) = join (joinAll path names) n.bytes :=
  List.foldl_append

theorem join_ne_nil (path : Path) (n : Name) : join path n.bytes ≠ [] := by
  have hs := FileTree.length_lt_length_join path n
  intro h
  rw [h] at hs
  exact Nat.not_lt_zero _ hs

theorem components_joinAll {path : Path} (hp : path ≠ []) (names : List Name) :
    components (joinAll path names) = components path ++ names.map fun n => .name n.bytes := by
  induction names generalizing path with
  | nil => exact (List.append_nil _).symm
  | cons n names ih =>
    rw [joinAll_cons, ih (join_ne_nil path n), components_join hp, List.append_assoc]
    rfl

theorem length_add_le_length_joinAll (path : Path) (names : List Name) :
    path.length + names.length ≤ (joinAll path names).length := by
  induction names generalizing path with
  | nil => exact Nat.le_refl _
  | cons n names ih =>
    have hs := FileTree.length_lt_length_join path n
    have hr := ih (join path n.bytes)
    rw [joinAll_cons, List.length_cons]
    omega

end Path

theorem Name.bytes_injective : Function.Injective Name.bytes := by
  rintro ⟨t, _, _, _, _⟩ ⟨t', _, _, _, _⟩ h
  cases h
  rfl

namespace FileTree
variable {tree : FileTree}

/-! ## Names that lead somewhere are names of the directory -/

def Halt.goOn (tree : FileTree) (more : List Step) : Halt → Halt
  | .arrived place => tree.walk false place more
  | .atLink directory target rest => .atLink directory target (rest ++ more)
  | .blocked obstacle => .blocked obstacle

theorem walk_append (place : Location) (path more : List Step) :
    tree.walk false place (path ++ more) = (tree.walk false place path).goOn tree more := by
  induction path generalizing place with
  | nil => rfl
  | cons step rest ih =>
    by_cases hd : tree.isDirectory place = true
    · cases step with
      | here | slash | up => simpa [walk, hd] using ih _
      | name n =>
        by_cases hs : 255 < n.bytes.length
        · simp [walk, hd, hs, Halt.goOn]
        · cases hn : tree.node? (n :: place) with
          | none => simp [walk, hd, hs, hn, Halt.goOn]
          | some node =>
            cases node with
            | link target => simp [walk, hd, hs, hn, Halt.goOn]
            | file | directory | device => simpa [walk, hd, hs, hn] using ih _
    · cases step <;> simp [walk, hd, Halt.goOn]

theorem exists_node_of_walk {place : Location} {n : Name}
    (h : ∀ obstacle, tree.walk false place [.name n] ≠ .blocked obstacle) :
    ∃ node, tree.node? (n :: place) = some node := by
  cases hn : tree.node? (n :: place) with
  | some node => exact ⟨node, rfl⟩
  | none =>
    by_cases hd : tree.isDirectory place = true
    · by_cases hs : 255 < n.bytes.length
      · exact absurd (by simp [walk, hd, hs]) (h .nameTooLong)
      · exact absurd (by simp [walk, hd, hs, hn]) (h .notFound)
    · exact absurd (by simp [walk, hd]) (h .notDirectory)

section
variable {n : Name} {links : Nat} {place a b : Location} {path path' : List Step}

/-- A way that moves one name further than another ends behind a node of that name, or both go on
behind one link. -/
theorem follow_name_step
    (hm : path'.filter Step.moves = path.filter Step.moves ++ [.name n])
    (ha : tree.follow false links place path = .ok a)
    (hb : tree.follow false links place path' = .ok b) :
    (∃ node, tree.node? (n :: a) = some node) ∨
      ∃ fewer place rest rest', links = fewer + 1 ∧
        rest'.filter Step.moves = rest.filter Step.moves ++ [.name n] ∧
        tree.follow false fewer place rest = .ok a ∧
        tree.follow false fewer place rest' = .ok b := by
  -- steps that lead nowhere may stand between: both ways are compared without them
  have hw : (tree.walk false place path').moves =
      ((tree.walk false place path).moves).goOn tree [.name n] := by
    rw [← walk_moves (walk_ne_blocked hb), hm, walk_append, walk_moves (walk_ne_blocked ha)]
  rcases follow_cases ha with hpa | ⟨fewer, directory, target, rest, hl, hpa, hfa⟩
  · rw [hpa] at hw
    have hw : (tree.walk false place path').moves = tree.walk false a [.name n] := hw
    refine Or.inl (exists_node_of_walk fun obstacle ho => ?_)
    rw [ho] at hw
    rcases follow_cases hb with hpb | ⟨_, _, _, _, -, hpb, -⟩
    · rw [hpb] at hw; cases hw
    · rw [hpb] at hw; cases hw
  · rcases follow_cases hb with hpb | ⟨fewer', directory', target', rest', hl', hpb, hfb⟩
    · rw [hpa, hpb] at hw
      cases hw
    · rw [hpa, hpb] at hw
      injection hw with hd ht hr
      cases Nat.succ.inj (hl.symm.trans hl')
      rw [hd, ht] at hfb
      refine Or.inr ⟨fewer, _, _, _, hl, ?_, hfa, hfb⟩
      rw [List.filter_append, List.filter_append, hr, List.append_assoc]

theorem exists_node_of_follow
    (hm : path'.filter Step.moves = path.filter Step.moves ++ [.name n])
    (ha : tree.follow false links place path = .ok a)
    (hb : tree.follow false links place path' = .ok b) :
    ∃ node, tree.node? (n :: a) = some node := by
  induction links generalizing place path path' with
  | zero =>
    rcases follow_name_step hm ha hb with h | ⟨_, _, _, _, hl, -⟩
    · exact h
    · cases hl
  | succ links ih =>
    rcases follow_name_step hm ha hb with h | ⟨fewer, place, rest, rest', hl, hr, ha, hb⟩
    · exact h
    · cases hl
      exact ih hr ha hb

end

theorem ne_nil_of_resolve {path : Path} {place : Location} (h : tree.resolve path = .ok place) :
    path ≠ [] := by
  rintro rfl
  cases h

theorem mem_names_of_node {n : Name} {place : Location} {node : Node}
    (h : tree.node? (n :: place) = some node) : n ∈ tree.names place := by
  rw [node?, if_neg (List.cons_ne_nil _ _)] at h
  exact List.mem_filterMap.mpr ⟨_, mem_of_lookup h, if_pos rfl⟩

theorem mem_names_of_resolve {path : Path} {n : Name} {place target : Location}
    (hp : tree.resolve path = .ok place)
    (hc : tree.resolve (Path.join path n.bytes) = .ok target) : n ∈ tree.names place := by
  have hpath := ne_nil_of_resolve hp
  have hm : (steps (Path.join path n.bytes)).filter Step.moves =
      (steps path).filter Step.moves ++ [.name n] := by
    rw [moves_steps, moves_steps, Path.components_join hpath, List.filterMap_append,
      List.filterMap_cons_some (Step.ofComponent?_name n), List.filterMap_nil]
  have ho : origin tree.here (Path.join path n.bytes) = origin tree.here path := by
    rw [origin_eq, origin_eq, Path.components_join hpath]
    cases Path.components path with
    | nil => rfl
    | cons c cs => rfl
  have hc := follow_of_resolve hc
  rw [ho] at hc
  obtain ⟨node, hn⟩ := exists_node_of_follow hm (follow_of_resolve hp) hc
  exact mem_names_of_node hn

theorem nodup_names (tree : FileTree) (place : Location) : (tree.names place).Nodup := by
  refine (List.pairwise_map.mp tree.nodup).filterMap _ ?_
  rintro ⟨l, node⟩ ⟨l', node'⟩ hne n hn n' hn' rfl
  refine hne ?_
  cases l with
  | nil => cases hn
  | cons m parent =>
    cases l' with
    | nil => cases hn'
    | cons m' parent' =>
      obtain ⟨rfl, hm⟩ := Option.ite_none_right_eq_some.mp hn
      obtain ⟨rfl, hm'⟩ := Option.ite_none_right_eq_some.mp hn'
      rw [Option.some.inj hm, Option.some.inj hm']

/-! ## What a walk finds -/

section
variable {levels : Nat} {above : List Location} {path p : Path} {place : Location}

theorem exists_joinAll_of_mem_filesBelow (h : p ∈ tree.filesBelow levels above path place) :
    ∃ names, p = Path.joinAll path names := by
  induction levels generalizing above path place with
  | zero => cases h
  | succ levels ih =>
    obtain ⟨n, -, h⟩ := mem_filesBelow_succ_iff.mp h
    obtain ⟨target, -, ⟨_, -, rfl⟩ | ⟨-, -, h⟩⟩ := mem_filesUnder_iff.mp h
    · exact ⟨[n], rfl⟩
    · obtain ⟨names, hp⟩ := ih h
      exact ⟨n :: names, hp⟩

theorem exists_joinAll_of_mem_filesUnder {n : Name}
    (h : p ∈ tree.filesUnder levels above path place n) :
    ∃ names, p = Path.joinAll path (n :: names) := by
  obtain ⟨target, -, ⟨_, -, rfl⟩ | ⟨-, -, h⟩⟩ := mem_filesUnder_iff.mp h
  · exact ⟨[], rfl⟩
  · exact exists_joinAll_of_mem_filesBelow h

theorem filesUnder_cases (tree : FileTree) (levels : Nat) (above : List Location) (path : Path)
    (place : Location) (n : Name) :
    tree.filesUnder levels above path place n = [] ∨
      tree.filesUnder levels above path place n = [Path.join path n.bytes] ∨
      ∃ target, tree.filesUnder levels above path place n =
        tree.filesBelow levels (place :: above) (Path.join path n.bytes) target := by
  unfold filesUnder
  dsimp only
  split
  · exact Or.inl rfl
  · next target _ =>
    split
    · exact Or.inr (Or.inl rfl)
    · split
      · exact Or.inl rfl
      · exact Or.inr (Or.inr ⟨target, rfl⟩)
    · exact Or.inl rfl

/-- A walk finds no file twice: what lies under different names has different paths. -/
theorem nodup_components_filesBelow (hpath : path ≠ []) :
    ((tree.filesBelow levels above path place).map Path.components).Nodup := by
  induction levels generalizing above path place with
  | zero => exact List.nodup_nil
  | succ levels ih =>
    rw [filesBelow_succ, List.map_flatMap, List.nodup_flatMap]
    constructor
    · intro n _
      rcases filesUnder_cases tree levels above path place n with h | h | ⟨target, h⟩
      · rw [h]; exact List.nodup_nil
      · rw [h]; exact List.nodup_singleton _
      · rw [h]; exact ih (Path.join_ne_nil path n)
    · refine (nodup_names tree place).imp fun {n n'} hne => ?_
      -- components found below two names differ right behind those of the path
      intro c hc hc'
      obtain ⟨p, hp, rfl⟩ := List.mem_map.mp hc
      obtain ⟨p', hp', he⟩ := List.mem_map.mp hc'
      obtain ⟨names, rfl⟩ := exists_joinAll_of_mem_filesUnder hp
      obtain ⟨names', rfl⟩ := exists_joinAll_of_mem_filesUnder hp'
      rw [Path.components_joinAll hpath, Path.components_joinAll hpath,
        List.append_cancel_left_eq] at he
      exact hne (Name.bytes_injective (Path.Component.name.inj (List.cons.inj he).1)).symm

end

/-! ## What a walk enters -/

/-- Behind `names`, the walk from `root` meets a link to a directory that it has come through. -/
def LeadsBack (tree : FileTree) (root : Path) (names : List Name) (n : Name) : Prop :=
  (∃ place, tree.resolve (Path.joinAll root names) = .ok place ∧ tree.isLink (n :: place) = true) ∧
    ∃ above target, above <+: names ∧ tree.resolve (Path.joinAll root above) = .ok target ∧
      tree.resolve (Path.joinAll root (names ++ [n])) = .ok target

/-- Behind `names`, the walk from `root` goes on into the directory `n`. A name that starts with a dot
hides it only if that name is text. -/
structure Enters (tree : FileTree) (root : Path) (names : List Name) (n : Name) : Prop where
  directory : ∃ place, tree.resolve (Path.joinAll root (names ++ [n])) = .ok place ∧
    tree.node? place = some .directory
  visible : ¬ ∃ t, n.bytes = Path.ofText ('.' :: t)
  forward : ¬ tree.LeadsBack root names n

/-- All names but the last are of directories that the walk from `root` enters behind `done`. -/
def Entered (tree : FileTree) (root : Path) (done names : List Name) : Prop :=
  ∀ before n after, names = before ++ n :: after → after ≠ [] →
    tree.Enters root (done ++ before) n

section
variable {root : Path} {done : List Name} {n : Name}

theorem entered_singleton : tree.Entered root done [n] := by
  intro before m after h hne
  cases before with
  | nil => cases h; exact absurd rfl hne
  | cons b before =>
    have hl := congrArg List.length h
    simp at hl

theorem entered_cons {rest : List Name} (hne : rest ≠ []) : tree.Entered root done (n :: rest) ↔
    tree.Enters root done n ∧ tree.Entered root (done ++ [n]) rest := by
  constructor
  · intro h
    refine ⟨?_, fun before m after he ha => ?_⟩
    · have hn := h [] n rest rfl hne
      rwa [List.append_nil] at hn
    · rw [List.append_assoc]
      exact h (n :: before) m after (congrArg (n :: ·) he) ha
  · rintro ⟨hn, hrest⟩ before m after he ha
    cases before with
    | nil =>
      cases he
      rwa [List.append_nil]
    | cons b before =>
      injection he with hb he
      cases hb
      have hm := hrest before m after he ha
      rwa [List.append_assoc] at hm

/-- The directories that a walk behind `done` has come through: those that the first of its names
lead to. -/
def Above (tree : FileTree) (root : Path) (done : List Name) (above : List Location) : Prop :=
  ∀ target, target ∈ above ↔ ∃ names, names <+: done ∧
    tree.resolve (Path.joinAll root names) = .ok target

theorem above_cons {above : List Location} {target : Location}
    (h : tree.Above root done above)
    (hr : tree.resolve (Path.joinAll root (done ++ [n])) = .ok target) :
    tree.Above root (done ++ [n]) (target :: above) := by
  intro t
  rw [List.mem_cons, h t]
  constructor
  · rintro (rfl | ⟨names, hp, ht⟩)
    · exact ⟨done ++ [n], List.prefix_rfl, hr⟩
    · exact ⟨names, hp.trans (List.prefix_append _ _), ht⟩
  · rintro ⟨names, hp, ht⟩
    rcases List.prefix_concat_iff.mp hp with rfl | hp
    · rw [hr] at ht
      exact Or.inl (Except.ok.inj ht).symm
    · exact Or.inr ⟨names, hp, ht⟩

section
variable {above : List Location} {place target : Location}
  (hp : tree.resolve (Path.joinAll root done) = .ok place)
  (hr : tree.resolve (Path.joinAll root (done ++ [n])) = .ok target)
  (ha : tree.Above root done (place :: above))
include hp hr ha

theorem leadsBack_iff : tree.LeadsBack root done n ↔
    tree.isLink (n :: place) = true ∧ target ∈ place :: above := by
  constructor
  · rintro ⟨⟨place', hp', hl⟩, names, target', hpre, hn, hr'⟩
    rw [hp] at hp'
    rw [hr] at hr'
    cases hp'
    cases hr'
    exact ⟨hl, (ha target).mpr ⟨names, hpre, hn⟩⟩
  · rintro ⟨hl, hm⟩
    obtain ⟨names, hpre, hn⟩ := (ha target).mp hm
    exact ⟨⟨place, hp, hl⟩, names, target, hpre, hn, hr⟩

theorem enters_iff : tree.Enters root done n ↔ tree.node? target = some .directory ∧
    ¬ (n.hidden || (tree.isLink (n :: place) && (place :: above).contains target)) = true := by
  rw [Bool.or_eq_true, Bool.and_eq_true, List.contains_iff_mem, ← leadsBack_iff hp hr ha, not_or,
    Name.hidden_iff]
  constructor
  · rintro ⟨⟨target', hr', hd⟩, hv, hf⟩
    rw [hr] at hr'
    cases hr'
    exact ⟨hd, hv, hf⟩
  · rintro ⟨hd, hv, hf⟩
    exact ⟨⟨target, hr, hd⟩, hv, hf⟩

end

/-- What a walk finds from behind `done` on: files that more names lead to, through directories that
it enters. -/
theorem mem_filesBelow_iff {levels : Nat} {above : List Location} {place : Location} {p : Path}
    (hp : tree.resolve (Path.joinAll root done) = .ok place)
    (ha : tree.Above root done (place :: above)) :
    p ∈ tree.filesBelow levels above (Path.joinAll root done) place ↔
      ∃ names, names ≠ [] ∧ names.length ≤ levels ∧ p = Path.joinAll root (done ++ names) ∧
        tree.Entered root done names ∧ tree.LeadsToFile p := by
  -- each level moves one name from what is to come to what is done; `above_cons` keeps the
  -- directories come through in step with it
  induction levels generalizing done above place with
  | zero =>
    refine iff_of_false (by simp [filesBelow]) ?_
    rintro ⟨names, hne, hle, -⟩
    exact hne (List.length_eq_zero_iff.mp (Nat.le_zero.mp hle))
  | succ levels ih =>
    rw [mem_filesBelow_succ_iff]
    constructor
    · rintro ⟨n, -, h⟩
      rw [mem_filesUnder_iff, ← Path.joinAll_snoc] at h
      obtain ⟨target, hr, ⟨f, hc, rfl⟩ | ⟨hd, hb, hm⟩⟩ := h
      · exact ⟨[n], List.cons_ne_nil _ _, Nat.succ_le_succ (Nat.zero_le _), rfl,
          entered_singleton, target, f, hr, hc⟩
      · obtain ⟨names, hne, hle, hpn, he, hl⟩ := (ih hr (above_cons ha hr)).mp hm
        rw [List.append_assoc] at hpn
        exact ⟨n :: names, List.cons_ne_nil _ _, Nat.succ_le_succ hle, hpn,
          (entered_cons hne).mpr ⟨(enters_iff hp hr ha).mpr ⟨hd, hb⟩, he⟩, hl⟩
    · rintro ⟨names, hne, hle, hpn, he, hl⟩
      cases names with
      | nil => exact absurd rfl hne
      | cons n names =>
        by_cases hn : names = []
        · rw [hn] at hpn
          obtain ⟨target, f, hr, hc⟩ := hl
          rw [hpn, Path.joinAll_snoc] at hr
          refine ⟨n, mem_names_of_resolve hp hr, mem_filesUnder_iff.mpr ⟨target, hr, ?_⟩⟩
          exact Or.inl ⟨f, hc, hpn.trans (Path.joinAll_snoc root done n)⟩
        · obtain ⟨hen, he⟩ := (entered_cons hn).mp he
          obtain ⟨target, hr, -⟩ := hen.directory
          obtain ⟨hd, hb⟩ := (enters_iff hp hr ha).mp hen
          have hm : p ∈ tree.filesBelow levels (place :: above)
              (Path.joinAll root (done ++ [n])) target := by
            refine (ih hr (above_cons ha hr)).mpr
              ⟨names, hn, Nat.le_of_succ_le_succ hle, ?_, he, hl⟩
            rw [hpn, List.append_assoc]
            rfl
          rw [Path.joinAll_snoc] at hr hm
          exact ⟨n, mem_names_of_resolve hp hr,
            mem_filesUnder_iff.mpr ⟨target, hr, Or.inr ⟨hd, hb, hm⟩⟩⟩

end

/-! ## Discovery in a directory -/

/-- What a walk from a directory finds at all: the number of its levels leaves nothing out. -/
theorem mem_filesBelow_levels_iff {root p : Path} {place : Location} {recursive : Bool}
    (hr : tree.resolve root = .ok place) :
    p ∈ tree.filesBelow (levels recursive) [] root place ↔
      ∃ names, names ≠ [] ∧ (recursive = false → names.length = 1) ∧
        p = Path.joinAll root names ∧ tree.Entered root [] names ∧ tree.LeadsToFile p := by
  have ha : tree.Above root [] [place] := by
    intro target
    rw [List.mem_singleton]
    constructor
    · rintro rfl
      exact ⟨[], List.prefix_rfl, hr⟩
    · rintro ⟨names, hp, ht⟩
      rw [List.prefix_nil.mp hp] at ht
      exact Except.ok.inj (ht.symm.trans hr)
  have hr' : tree.resolve (Path.joinAll root []) = .ok place := hr
  refine (mem_filesBelow_iff hr' ha).trans (exists_congr fun names => ?_)
  refine and_congr_right fun hne => ?_
  have hpos := List.length_pos_iff.mpr hne
  cases recursive with
  | false =>
    refine and_congr_left fun _ => ?_
    rw [levels, if_neg (by decide)]
    constructor
    · intro hle _
      omega
    · intro h
      exact Nat.le_of_eq (h rfl)
  | true =>
    -- a path that leads somewhere is shorter than the limit, and so are its names in number
    constructor
    · rintro ⟨-, h⟩
      exact ⟨nofun, h⟩
    · rintro ⟨-, rfl, he, hl⟩
      obtain ⟨target, f, ht, hc⟩ := hl
      have hs := length_lt_of_resolve ht
      have hn := Path.length_add_le_length_joinAll root names
      refine ⟨?_, rfl, he, target, f, ht, hc⟩
      rw [levels, if_pos rfl]
      omega

/-- In a directory, whatever its own name, discovery finds the files that names lead to, through
directories that are not hidden and no links back; each of them once, in the order of paths. -/
theorem discover_directory (tree : FileTree) (filter : Filter) (accept : Path → Bool)
    (root : Path) (place : Location) (hr : tree.resolve root = .ok place)
    (hd : tree.node? place = some .directory) :
    ∃ found, tree.discover filter accept root = .ok found ∧
      found.Pairwise (fun p q => Path.before p q = true) ∧
      (found.map Path.components).Nodup ∧
      ∀ p, p ∈ found ↔ ∃ names, names ≠ [] ∧ (filter.recursive = false → names.length = 1) ∧
        p = Path.joinAll root names ∧
        (∀ before n after, names = before ++ n :: after → after ≠ [] →
          tree.Enters root before n) ∧
        tree.LeadsToFile p ∧ filter.admits p = true ∧ accept p = true := by
  have hnodup : (((tree.filesBelow (levels filter.recursive) [] root place).filter fun p =>
      filter.admits p && accept p).map Path.components).Nodup :=
    (nodup_components_filesBelow (ne_nil_of_resolve hr)).sublist
      (List.filter_sublist.map Path.components)
  refine ⟨_, discover_of_directory hr hd, Path.pairwise_before_mergeSort hnodup,
    ((List.mergeSort_perm _ _).map Path.components).nodup_iff.mpr hnodup, fun p => ?_⟩
  rw [List.mem_mergeSort, List.mem_filter, Bool.and_eq_true, mem_filesBelow_levels_iff hr]
  constructor
  · rintro ⟨⟨names, hne, hk, hp, he, hl⟩, hg⟩
    exact ⟨names, hne, hk, hp, he, hl, hg⟩
  · rintro ⟨names, hne, hk, hp, he, hl, hg⟩
    exact ⟨⟨names, hne, hk, hp, he, hl⟩, hg⟩

/-- A hidden directory. In it a file, another hidden directory, a link to itself, a directory with a
hidden file and one with a file that is no source, and a directory that is excluded. -/
def windingTree : FileTree :=
  let top := Name.ofText ".d".toList (by decide)
  let hidden := Name.ofText ".e".toList (by decide)
  let link := Name.ofText "l".toList (by decide)
  let inner := Name.ofText "s".toList (by decide)
  let left := Name.ofText "v".toList (by decide)
  let plain := Name.ofText "f.rb".toList (by decide)
  let dotted := Name.ofText ".g.rb".toList (by decide)
  let notes := Name.ofText "t.txt".toList (by decide)
  [([top], .directory), ([inner, top], .directory), ([dotted, inner, top], .file ⟨[], true⟩),
    ([notes, inner, top], .file ⟨[], true⟩), ([plain, top], .file ⟨[], true⟩),
    ([hidden, top], .directory), ([plain, hidden, top], .file ⟨[], true⟩),
    ([left, top], .directory), ([plain, left, top], .file ⟨[], true⟩),
    ([link, top], .link (Path.ofText ".".toList))].foldl
      (fun tree node => tree.put node.1 node.2) empty

def windingFilter : Filter where
  included := [⟨[.anySequence, .char '.', .char 'r', .char 'b']⟩]
  excluded := [⟨[.anyComponents, .char 'v', .char '/', .anyComponents]⟩]
  recursive := true

theorem discover_directory_sample :
    Filter.read ["*.rb".toList] ["**/v/**".toList] true = .ok windingFilter ∧
    ∃ place, windingTree.resolve (Path.ofText ".d".toList) = .ok place ∧
      windingTree.node? place = some .directory ∧
      ∃ found, windingTree.discover windingFilter (fun _ => true) (Path.ofText ".d".toList) =
          .ok found ∧
        found = [".d/f.rb", ".d/s/.g.rb"].map (fun s => Path.ofText s.toList) ∧
        found.Pairwise (fun p q => Path.before p q = true) := by
  have hr : windingTree.resolve (Path.ofText ".d".toList) =
      .ok [Name.ofText ".d".toList (by decide)] := by decide +kernel
  have hd : windingTree.node? [Name.ofText ".d".toList (by decide)] = some .directory := by
    decide +kernel
  have hwalk : ((windingTree.filesBelow (levels true) [] (Path.ofText ".d".toList)
      [Name.ofText ".d".toList (by decide)]).filter fun p => windingFilter.admits p && true) =
      [".d/f.rb", ".d/s/.g.rb"].map (fun s => Path.ofText s.toList) := by decide +kernel
  obtain ⟨found, hfound, hsorted, -, -⟩ :=
    discover_directory windingTree windingFilter (fun _ => true) _ _ hr hd
  refine ⟨by decide +kernel, _, hr, hd, found, hfound, ?_, hsorted⟩
  rw [discover_of_directory hr hd, show windingFilter.recursive = true from rfl, hwalk,
    List.mergeSort_of_pairwise (by decide +kernel)] at hfound
  exact (Except.ok.inj hfound).symm

def brokenDot : Name :=
  ⟨[0x2E, 0xFF], by decide, by decide, by decide, by decide⟩

def brokenTree : FileTree :=
  let top := Name.ofText "s".toList (by decide)
  let plain := Name.ofText "f.rb".toList (by decide)
  [([top], .directory), ([brokenDot, top], .directory),
    ([plain, brokenDot, top], .file ⟨[], true⟩)].foldl
      (fun tree node => tree.put node.1 node.2) empty

/-- A directory with such a name is entered. -/
theorem discover_enters_broken_dot : brokenDot.bytes.head? = some Path.dot ∧
    brokenTree.discover ⟨[], [], true⟩ (fun _ => true) (Path.ofText ['s']) =
      .ok [Path.joinAll (Path.ofText ['s'])
        [brokenDot, Name.ofText "f.rb".toList (by decide)]] := by
  decide +kernel

end FileTree

end LineCensus
