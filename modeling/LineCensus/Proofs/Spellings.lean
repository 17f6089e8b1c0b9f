import LineCensus.Census
import LineCensus.Proofs.Discovery
import LineCensus.Proofs.TextSearch

/-!
# Spellings of a path

Paths that are equal by components are spelled differently at most in what leads nowhere. They have
the same language, and where each of them leads somewhere they lead to the same place
(`resolve_unique`). One of them may still lead nowhere: a slash behind a file is in the way.
-/

namespace LineCensus

namespace FileTree

/-! ## Steps that lead elsewhere -/

def Step.moves : Step → Bool
  | .up | .name _ => true
  | .here | .slash => false

def Step.ofComponent? : Path.Component → Option Step
  | .root | .here => none
  | .up => some .up
  | .name n => (Name.ofBytes? n).map .name

theorem Step.ofComponent?_name (n : Name) : ofComponent? (.name n.bytes) = some (.name n) := by
  rw [ofComponent?, Name.ofBytes?, dif_pos ⟨n.nonempty, n.noSlash, n.notHere, n.notUp⟩]
  rfl

theorem filter_ofSegment? (segment : Bytes) : (Step.ofSegment? segment).filter Step.moves =
    (Path.component? segment).bind Step.ofComponent? := by
  unfold Step.ofSegment? Path.component?
  by_cases hh : segment = [Path.dot]
  · rw [if_pos hh, if_pos (Or.inr hh)]; rfl
  · rw [if_neg hh]
    by_cases hn : segment = []
    · rw [if_pos (Or.inl hn), hn]; rfl
    · rw [if_neg (not_or.mpr ⟨hn, hh⟩)]
      by_cases hu : segment = [Path.dot, Path.dot]
      · rw [if_pos hu, if_pos hu]; rfl
      · rw [if_neg hu, if_neg hu]
        cases hs : Name.ofBytes? segment with
        | none => simp [Step.ofComponent?, hs]
        | some n => simp [Step.ofComponent?, hs, Step.moves]

theorem filterMap_start (path first : Path) (h : path = [] → first = []) :
    (Path.start path first).filterMap Step.ofComponent? =
      ((Path.component? first).bind Step.ofComponent?).toList := by
  unfold Path.start
  by_cases hp : path = []
  · rw [if_pos hp, h hp]; rfl
  · rw [if_neg hp]
    by_cases hn : first = []
    · rw [if_pos hn, hn]; rfl
    · rw [if_neg hn]
      by_cases hh : first = [Path.dot]
      · rw [if_pos hh, hh]; rfl
      · rw [if_neg hh]
        cases Path.component? first with
        | none => rfl
        | some c => cases hc : Step.ofComponent? c <;> simp [hc]

/-- Which steps lead elsewhere depends on the components only. -/
theorem moves_steps (path : Path) : (steps path).filter Step.moves =
    (Path.components path).filterMap Step.ofComponent? := by
  obtain ⟨first, rest, hs⟩ :=
    List.exists_cons_of_ne_nil (Text.splitAt_ne_nil Path.slash path)
  have hfirst : path = [] → first = [] := by
    rintro rfl
    cases hs
    rfl
  have hslash : (if path.getLast? = some Path.slash then [Step.slash] else []).filter Step.moves = [] := by
    split <;> rfl
  unfold steps Path.components Path.segments
  rw [hs]
  dsimp only
  rw [List.filter_append, hslash, List.append_nil, List.filter_filterMap,
    List.filterMap_append, List.filterMap_filterMap, filterMap_start path first hfirst,
    ← filter_ofSegment?]
  simp only [filter_ofSegment?]
  cases h : (Path.component? first).bind Step.ofComponent? <;> simp [h]

theorem exists_start_eq_cons {path first : Path} (hp : path ≠ []) (hf : first ≠ []) :
    ∃ c cs, Path.start path first = c :: cs ∧ c ≠ .root := by
  unfold Path.start
  rw [if_neg hp, if_neg hf]
  by_cases hh : first = [Path.dot]
  · exact ⟨.here, [], if_pos hh, by decide⟩
  · rw [if_neg hh, Path.component?, if_neg (not_or.mpr ⟨hf, hh⟩)]
    by_cases hu : first = [Path.dot, Path.dot]
    · exact ⟨.up, [], by rw [if_pos hu]; rfl, by decide⟩
    · exact ⟨.name first, [], by rw [if_neg hu]; rfl, nofun⟩

theorem origin_eq (directory : Location) (path : Path) : origin directory path =
    if (Path.components path).head? = some .root then [] else directory := by
  unfold origin Path.components Path.segments
  cases path with
  | nil => rfl
  | cons c r =>
    by_cases hc : c = Path.slash
    · rw [hc, Text.splitAt, if_pos rfl]; rfl
    · obtain ⟨p, ps, hs⟩ := List.exists_cons_of_ne_nil (Text.splitAt_ne_nil Path.slash r)
      obtain ⟨k, ks, hk, hn⟩ :=
        exists_start_eq_cons (List.cons_ne_nil c r) (List.cons_ne_nil c p)
      rw [Text.splitAt, if_neg hc, hs, List.modifyHead_cons, if_neg (by simpa using hc)]
      dsimp only
      exact (if_neg (by rw [hk, List.cons_append, List.head?_cons]; simpa using hn)).symm

/-! ## Walking along them -/

/-- A halt without the steps to go that lead nowhere. -/
def Halt.moves : Halt → Halt
  | .atLink directory target rest => .atLink directory target (rest.filter Step.moves)
  | halt => halt

def Step.next (place : Location) : Step → Location
  | .here | .slash => place
  | .up => place.tail
  | .name n => n :: place

theorem Step.next_of_not_moves {step : Step} (h : ¬ step.moves = true) (place : Location) :
    step.next place = place := by
  cases step with
  | here | slash => rfl
  | up | name => exact absurd rfl h

section
variable {tree : FileTree}

theorem walk_cons_cases {place : Location} {step : Step} {rest : List Step}
    (h : ∀ obstacle, tree.walk false place (step :: rest) ≠ .blocked obstacle) :
    (∀ rest, tree.walk false place (step :: rest) = tree.walk false (step.next place) rest) ∨
      ∃ n target, step = .name n ∧ tree.node? (n :: place) = some (.link target) ∧
        ∀ rest, tree.walk false place (step :: rest) = .atLink place target rest := by
  by_cases hd : tree.isDirectory place = true
  · cases step with
    | here | slash | up => exact Or.inl fun rest => by simp [walk, hd, Step.next]
    | name n =>
      by_cases hs : 255 < n.bytes.length
      · exact absurd (by simp [walk, hd, hs]) (h .nameTooLong)
      · cases hn : tree.node? (n :: place) with
        | none => exact absurd (by simp [walk, hd, hs, hn]) (h .notFound)
        | some node =>
          cases node with
          | link target =>
            exact Or.inr ⟨n, target, rfl, hn, fun rest => by simp [walk, hd, hs, hn]⟩
          | file | directory | device =>
            exact Or.inl fun rest => by simp [walk, hd, hs, hn, Step.next]
  · exact absurd (by cases step <;> simp [walk, hd]) (h .notDirectory)

theorem walk_moves {place : Location} {path : List Step}
    (h : ∀ obstacle, tree.walk false place path ≠ .blocked obstacle) :
    tree.walk false place (path.filter Step.moves) = (tree.walk false place path).moves := by
  induction path generalizing place with
  | nil => rfl
  | cons step rest ih =>
    rcases walk_cons_cases h with hw | ⟨n, target, rfl, -, hw⟩
    · rw [hw] at h ⊢
      by_cases hm : step.moves = true
      · rw [List.filter_cons_of_pos hm, hw]
        exact ih h
      · rw [List.filter_cons_of_neg hm, ← ih h, Step.next_of_not_moves hm]
    · rw [List.filter_cons_of_pos rfl, hw, hw]
      rfl

section
variable {links : Nat} {place a b : Location} {path path' : List Step}

theorem follow_of_resolve {p : Path} (h : tree.resolve p = .ok a) :
    tree.follow false linkLimit (origin tree.here p) (steps p) = .ok a :=
  (locate_eq_ok_iff.mp h).2

theorem follow_cases {creating : Bool} (h : tree.follow creating links place path = .ok a) :
    tree.walk creating place path = .arrived a ∨
      ∃ fewer directory target rest, links = fewer + 1 ∧
        tree.walk creating place path = .atLink directory target rest ∧
        tree.follow creating fewer (origin directory target) (steps target ++ rest) = .ok a := by
  unfold follow at h
  split at h
  · next hw => cases h; exact Or.inl hw
  · cases h
  · next directory target rest hw =>
    split at h
    · cases h
    · next fewer => exact Or.inr ⟨fewer, directory, target, rest, rfl, hw, h⟩

theorem walk_ne_blocked (h : tree.follow false links place path = .ok a) (obstacle : Obstacle) :
    tree.walk false place path ≠ .blocked obstacle := by
  intro hw
  unfold follow at h
  rw [hw] at h
  cases h

/-- Ways that move alike end in one place, or they go on alike behind one link. -/
theorem follow_step (hm : path.filter Step.moves = path'.filter Step.moves)
    (ha : tree.follow false links place path = .ok a)
    (hb : tree.follow false links place path' = .ok b) :
    a = b ∨ ∃ fewer place rest rest', links = fewer + 1 ∧
      rest.filter Step.moves = rest'.filter Step.moves ∧
      tree.follow false fewer place rest = .ok a ∧
      tree.follow false fewer place rest' = .ok b := by
  have hw : (tree.walk false place path).moves = (tree.walk false place path').moves := by
    rw [← walk_moves (walk_ne_blocked ha), ← walk_moves (walk_ne_blocked hb), hm]
  rcases follow_cases ha with ha | ⟨fewer, directory, target, rest, hl, ha, hfa⟩
  · rcases follow_cases hb with hb | ⟨_, _, _, _, -, hb, -⟩
    · rw [ha, hb] at hw
      injection hw with hw
      exact Or.inl hw
    · rw [ha, hb] at hw
      cases hw
  · rcases follow_cases hb with hb | ⟨fewer', directory', target', rest', hl', hb, hfb⟩
    · rw [ha, hb] at hw
      cases hw
    · rw [ha, hb] at hw
      injection hw with hd ht hr
      cases Nat.succ.inj (hl.symm.trans hl')
      rw [← hd, ← ht] at hfb
      exact Or.inr ⟨fewer, _, _, _, hl, by rw [List.filter_append, List.filter_append, hr], hfa, hfb⟩

theorem follow_unique (hm : path.filter Step.moves = path'.filter Step.moves)
    (ha : tree.follow false links place path = .ok a)
    (hb : tree.follow false links place path' = .ok b) : a = b := by
  induction links generalizing place path path' with
  | zero =>
    rcases follow_step hm ha hb with h | ⟨_, _, _, _, hl, -⟩
    · exact h
    · cases hl
  | succ links ih =>
    rcases follow_step hm ha hb with h | ⟨fewer, place, rest, rest', hl, hr, ha, hb⟩
    · exact h
    · cases hl
      exact ih hr ha hb

end

/-! ## Paths that are equal by components -/

section
variable {p q : Path} (h : Path.components p = Path.components q)
include h

theorem resolve_unique {a b : Location} (ha : tree.resolve p = .ok a)
    (hb : tree.resolve q = .ok b) : a = b := by
  have hm : (steps p).filter Step.moves = (steps q).filter Step.moves := by
    rw [moves_steps, moves_steps, h]
  have ho : origin tree.here p = origin tree.here q := by
    rw [origin_eq, origin_eq, h]
  have hb := follow_of_resolve hb
  rw [← ho] at hb
  exact follow_unique hm (follow_of_resolve ha) hb

theorem read_eq (hp : tree.LeadsToFile p) (hq : tree.LeadsToFile q) :
    tree.read p = tree.read q := by
  obtain ⟨a, -, ha, -⟩ := hp
  obtain ⟨b, -, hb, -⟩ := hq
  have hn : tree.node p = tree.node q := by
    unfold node
    rw [ha, hb, resolve_unique h ha hb]
  unfold read
  rw [hn]

end

end

end FileTree

namespace Path

theorem extension?_eq {p q : Path} (h : components p = components q) :
    extension? p = extension? q := by
  rw [extension?, extension?, fileName?, fileName?, h]

/-! ## Joining -/

theorem component?_name (n : Name) : component? n.bytes = some (.name n.bytes) := by
  rw [component?, if_neg (not_or.mpr ⟨n.nonempty, n.notHere⟩), if_neg n.notUp]

theorem components_slash (r : Path) :
    components (Path.slash :: r) = .root :: (segments r).filterMap component? := by
  unfold components segments
  rw [Text.splitAt, if_pos rfl]
  rfl

theorem components_append_slash {p : Path} (hp : p ≠ []) (r : Path) :
    components (p ++ Path.slash :: r) = components p ++ (segments r).filterMap component? := by
  obtain ⟨first, rest, hs⟩ := List.exists_cons_of_ne_nil (Text.splitAt_ne_nil Path.slash p)
  have hstart : start (p ++ Path.slash :: r) first = start p first := by
    rw [start, start, if_neg hp, if_neg (by simp)]
  unfold components segments
  rw [Text.splitAt_append_cut, hs, List.cons_append]
  dsimp only
  rw [hstart, List.filterMap_append, List.append_assoc]

theorem filterMap_segments_name (n : Name) :
    (segments n.bytes).filterMap component? = [.name n.bytes] := by
  rw [segments, Text.splitAt_free n.noSlash, List.filterMap_cons_some (component?_name n),
    List.filterMap_nil]

theorem components_join {p : Path} (hp : p ≠ []) (n : Name) :
    components (join p n.bytes) = components p ++ [.name n.bytes] := by
  unfold join
  by_cases hl : p.getLast? = some Path.slash
  · obtain ⟨l, rfl⟩ := List.getLast?_eq_some_iff.mp hl
    rw [if_pos (Or.inr hl), List.append_assoc, List.singleton_append]
    by_cases hn : l = []
    · rw [hn, List.nil_append, List.nil_append, components_slash, components_slash,
        filterMap_segments_name]
      rfl
    · rw [components_append_slash hn, components_append_slash hn, filterMap_segments_name]
      simp [segments, Text.splitAt, component?]
  · rw [if_neg (not_or.mpr ⟨hp, hl⟩), components_append_slash hp, filterMap_segments_name]

end Path

theorem Options.languageOf?_eq (o : Options) {p q : Path}
    (h : Path.components p = Path.components q) : o.languageOf? p = o.languageOf? q := by
  unfold languageOf? Extensions.languageOfPath?
  rw [Path.extension?_eq h]

end LineCensus
