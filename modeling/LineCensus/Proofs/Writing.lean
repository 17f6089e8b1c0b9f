import LineCensus.Proofs.Walks

/-!
# Writing a file

A path that leads to a file, or to a place where one can be made, is written at that place and
nowhere else (`write_of_takes`): what was written is read back, and whatever leads elsewhere leads
there still.
-/

namespace LineCensus

namespace FileTree
variable {tree : FileTree}

/-! ## Ways that end -/

/-- What holds of a way that ends without a link, and of one that meets a link if it holds of the
way on behind that, holds of every way that ends. -/
theorem follow_induction {creating : Bool} {a : Location}
    {motive : Nat → Location → List Step → Prop}
    (arrived : ∀ links start path, tree.follow creating links start path = .ok a →
      tree.walk creating start path = .arrived a → motive links start path)
    (atLink : ∀ links start path directory target rest,
      tree.follow creating (links + 1) start path = .ok a →
      tree.walk creating start path = .atLink directory target rest →
      motive links (origin directory target) (steps target ++ rest) →
      motive (links + 1) start path)
    {links : Nat} {start : Location} {path : List Step}
    (h : tree.follow creating links start path = .ok a) : motive links start path := by
  induction links generalizing start path with
  | zero =>
    rcases follow_cases h with hw | ⟨_, _, _, _, hl, -⟩
    · exact arrived 0 start path h hw
    · cases hl
  | succ links ih =>
    rcases follow_cases h with hw | ⟨fewer, directory, target, rest, hl, hw, hf⟩
    · exact arrived (links + 1) start path h hw
    · cases hl
      exact atLink links start path directory target rest h hw (ih hf)

/-! ## One name of a way -/

/-- Nothing but what is behind a name can keep a walk from going there. -/
structure Passes (tree : FileTree) (creating : Bool) (start : Location) (n : Name)
    (rest : List Step) : Prop where
  directory : tree.isDirectory start = true
  short : ¬ 255 < n.bytes.length
  noSlash : (creating && rest = [.slash]) = false

section
variable {creating : Bool} {start : Location} {n : Name} {rest : List Step}

theorem walk_name (h : tree.Passes creating start n rest) :
    tree.walk creating start (.name n :: rest) =
      match tree.node? (n :: start) with
      | none =>
        if creating && rest.isEmpty then .arrived (n :: start) else .blocked .notFound
      | some (.link target) => .atLink start target rest
      | some _ => tree.walk creating (n :: start) rest := by
  cases hn : tree.node? (n :: start) with
  | none => simp [walk, h.directory, h.short, h.noSlash, hn]
  | some node =>
    cases node with
    | file | directory | link | device => simp [walk, h.directory, h.short, h.noSlash, hn]

theorem passes_of_walk
    (h : ∀ obstacle, tree.walk creating start (.name n :: rest) ≠ .blocked obstacle) :
    tree.Passes creating start n rest := by
  by_cases hd : tree.isDirectory start = true
  · cases hslash : (creating && rest = [.slash])
    · by_cases hs : 255 < n.bytes.length
      · exact absurd (by simp [walk, hd, hslash, hs]) (h .nameTooLong)
      · exact ⟨hd, hs, hslash⟩
    · exact absurd (by simp [walk, hd, hslash]) (h .isDirectory)
  · exact absurd (by simp [walk, hd]) (h .notDirectory)

end

/-! ## Nodes of a tree with a new node -/

theorem node?_put (place : Location) (node : Node) (other : Location) :
    (tree.put place node).node? other =
      if other = [] then some .directory
      else if place = other then some node else tree.node? other := by
  unfold node?
  by_cases h : other = []
  · rw [if_pos h, if_pos h]
  · rw [if_neg h, if_neg h, if_neg h]
    exact lookup_replaced tree.nodes place node other

theorem node?_put_ne {place other : Location} (h : other ≠ place) (node : Node) :
    (tree.put place node).node? other = tree.node? other := by
  rw [node?_put, if_neg (Ne.symm h)]
  exact ite_eq_right_iff.mpr fun ho => by rw [ho, node?, if_pos rfl]

theorem node?_put_self {place : Location} (h : place ≠ []) (node : Node) :
    (tree.put place node).node? place = some node := by
  rw [node?_put, if_neg h, if_pos rfl]

/-- A place for a file: there is one, or nothing at all. -/
def IsFree (tree : FileTree) (place : Location) : Prop :=
  tree.node? place = none ∨ ∃ old, tree.node? place = some (.file old)

section
variable {place : Location} (hp : tree.IsFree place) (f : File)
include hp

theorem IsFree.ne_nil : place ≠ [] := by
  rintro rfl
  rcases hp with h | ⟨_, h⟩
  · cases h
  · cases h

theorem isDirectory_put (other : Location) :
    (tree.put place (.file f)).isDirectory other = tree.isDirectory other := by
  by_cases h : other = place
  · rw [h, isDirectory, isDirectory, node?_put_self hp.ne_nil]
    rcases hp with hp | ⟨_, hp⟩
    · rw [hp]
    · rw [hp]
  · rw [isDirectory, isDirectory, node?_put_ne h]

theorem node?_put_of_some {other : Location} {node : Node} (h : tree.node? other = some node) :
    (tree.put place (.file f)).node? other = some node ∨
      (∃ old, node = .file old) ∧
        (tree.put place (.file f)).node? other = some (.file f) := by
  by_cases ho : other = place
  · rw [ho] at h ⊢
    rcases hp with hn | ⟨old, ho⟩
    · rw [hn] at h; cases h
    · rw [ho] at h
      cases h
      exact Or.inr ⟨⟨old, rfl⟩, node?_put_self (IsFree.ne_nil (Or.inr ⟨old, ho⟩)) _⟩
  · exact Or.inl ((node?_put_ne ho _).trans h)

/-! ## Walks over a tree with a new file -/

theorem walk_put {creating : Bool} {start : Location} {path : List Step} {halt : Halt}
    (h : tree.walk creating start path = halt) (hb : ∀ obstacle, halt ≠ .blocked obstacle)
    (hc : creating = true → ∀ a, halt = .arrived a → a = place) :
    (tree.put place (.file f)).walk false start path = halt := by
  have hd := isDirectory_put hp f
  induction path generalizing start with
  | nil => exact h
  | cons step rest ih =>
    cases step with
    | here | slash | up =>
      rw [walk] at h ⊢
      rw [hd]
      split
      · next hn => rw [if_pos hn] at h; exact h
      · next hn => rw [if_neg hn] at h; exact ih h
    | name n =>
      have hpass := passes_of_walk (h ▸ hb)
      rw [walk_name hpass] at h
      rw [walk_name ⟨(hd start).trans hpass.directory, hpass.short, rfl⟩]
      cases hn : tree.node? (n :: start) with
      | none =>
        rw [hn] at h
        dsimp only at h
        split at h
        · next hlast =>
          -- what this walk would create is the new file, and that is there
          obtain ⟨hcreating, hrest⟩ := Bool.and_eq_true_iff.mp hlast
          have hplace : n :: start = place := hc hcreating _ h.symm
          rw [hplace, node?_put_self hp.ne_nil, List.isEmpty_iff.mp hrest, ← h, hplace]
          rfl
        · exact absurd h.symm (hb .notFound)
      | some node =>
        rw [hn] at h
        -- a file that was there before may be another one now, but is no link either way
        rcases node?_put_of_some hp f hn with hnew | ⟨⟨old, rfl⟩, hnew⟩
        · rw [hnew]
          cases node with
          | link target => exact h
          | file | directory | device => exact ih h
        · rw [hnew]
          exact ih h

theorem follow_put {creating : Bool} {links : Nat} {start a : Location} {path : List Step}
    (h : tree.follow creating links start path = .ok a) (hc : creating = true → a = place) :
    (tree.put place (.file f)).follow false links start path = .ok a := by
  refine follow_induction (motive := fun links start path =>
    (tree.put place (.file f)).follow false links start path = .ok a) ?_ ?_ h
  · intro links start path _ hw
    have hnew := walk_put hp f hw (fun _ hb => by cases hb) fun ht b hb => by
      cases hb
      exact hc ht
    unfold follow
    rw [hnew]
  · intro links start path directory target rest _ hw ih
    have hnew := walk_put hp f hw (fun _ hb => by cases hb) fun _ _ hb => by cases hb
    unfold follow
    rw [hnew]
    exact ih

theorem resolve_put {creating : Bool} {path : Path} {a : Location}
    (h : tree.locate creating path = .ok a) (hc : creating = true → a = place) :
    (tree.put place (.file f)).resolve path = .ok a := by
  obtain ⟨ho, hf⟩ := locate_eq_ok_iff.mp h
  exact locate_eq_ok_iff.mpr ⟨ho, follow_put hp f hf hc⟩

end

/-! ## Ways to a file -/

section
variable {links : Nat} {start a : Location} {path : List Step}

theorem walk_slash (place : Location) : tree.walk false place [.slash] =
    if tree.isDirectory place then .arrived place else .blocked .notDirectory := by
  cases h : tree.isDirectory place <;> simp [walk, h]

theorem isDirectory_of_follow (h : tree.follow false links start path = .ok a)
    (hl : path.getLast? = some .slash) : tree.isDirectory a = true := by
  refine follow_induction (motive := fun _ _ path => path.getLast? = some .slash →
    tree.isDirectory a = true) ?_ ?_ h hl
  · intro _ start path _ hw hl
    obtain ⟨front, rfl⟩ := List.getLast?_eq_some_iff.mp hl
    rw [walk_append] at hw
    cases hp : tree.walk false start front with
    | arrived b =>
      rw [hp, Halt.goOn, walk_slash] at hw
      split at hw
      · next hb => cases hw; exact hb
      · cases hw
    | atLink | blocked => rw [hp] at hw; cases hw
  · intro _ start path directory target rest _ hw ih hl
    obtain ⟨front, rfl⟩ := List.getLast?_eq_some_iff.mp hl
    rw [walk_append] at hw
    cases hp : tree.walk false start front with
    | arrived b =>
      rw [hp, Halt.goOn, walk_slash] at hw
      split at hw
      · cases hw
      · cases hw
    | atLink directory' target' rest' =>
      rw [hp, Halt.goOn] at hw
      cases hw
      exact ih (by rw [← List.append_assoc, List.getLast?_concat])
    | blocked obstacle => rw [hp] at hw; cases hw

theorem walk_creating (hb : ∀ obstacle, tree.walk false start path ≠ .blocked obstacle)
    (hl : path.getLast? ≠ some .slash) :
    tree.walk true start path = tree.walk false start path := by
  induction path generalizing start with
  | nil => rfl
  | cons step rest ih =>
    have hrest : rest.getLast? ≠ some .slash := by
      intro h
      rw [List.getLast?_cons, h] at hl
      exact hl rfl
    cases step with
    | here | slash | up =>
      rw [walk] at hb ⊢
      rw [walk]
      split
      · rfl
      · next hd =>
        rw [if_neg hd] at hb
        exact ih hb hrest
    | name n =>
      have hpass := passes_of_walk hb
      have hslash : (true && rest = [.slash]) = false := by
        rw [Bool.true_and, decide_eq_false_iff_not]
        rintro rfl
        exact hrest rfl
      rw [walk_name hpass] at hb ⊢
      rw [walk_name ⟨hpass.directory, hpass.short, hslash⟩]
      cases hn : tree.node? (n :: start) with
      | none => rw [hn] at hb; exact absurd rfl (hb .notFound)
      | some node =>
        rw [hn] at hb
        cases node with
        | link target => rfl
        | file | directory | device => exact ih hb hrest

theorem follow_creating (h : tree.follow false links start path = .ok a)
    (hd : tree.isDirectory a = false) : tree.follow true links start path = .ok a := by
  have hwalk {links : Nat} {start : Location} {path : List Step}
      (h : tree.follow false links start path = .ok a) :
      tree.walk true start path = tree.walk false start path := by
    refine walk_creating (walk_ne_blocked h) fun hl => ?_
    rw [isDirectory_of_follow h hl] at hd
    cases hd
  refine follow_induction (motive := fun links start path =>
    tree.follow true links start path = .ok a) ?_ ?_ h
  · intro links start path h hw
    unfold follow
    rw [hwalk h, hw]
  · intro links start path directory target rest h hw ih
    unfold follow
    rw [hwalk h, hw]
    exact ih

end

/-! ## Writing at a place -/

theorem locate_of_resolve {path : Path} {place : Location} (h : tree.resolve path = .ok place)
    (hd : tree.isDirectory place = false) : tree.locate true path = .ok place := by
  obtain ⟨ho, hf⟩ := locate_eq_ok_iff.mp h
  exact locate_eq_ok_iff.mpr ⟨ho, follow_creating hf hd⟩

/-- The path leads to a file at the place, or one can be created there. -/
def Takes (tree : FileTree) (path : Path) (place : Location) : Prop :=
  (tree.resolve path = .ok place ∧ ∃ old, tree.node? place = some (.file old)) ∨
    tree.locate true path = .ok place ∧ tree.node? place = none

def ReadableAt (tree : FileTree) (place : Location) : Prop :=
  ∀ old, tree.node? place = some (.file old) → old.readable = true

/-- The path leads to the place and has a new content there; nothing else is new. -/
structure Rewrites (tree tree' : FileTree) (path : Path) (place : Location) (content : Bytes) :
    Prop where
  resolve : tree'.resolve path = .ok place
  holds : ∃ f, tree'.node? place = some (.file f) ∧ f.content = content
  read : tree.ReadableAt place → tree'.read path = .ok content
  nodes : ∀ other, other ≠ place → tree'.node? other = tree.node? other
  elsewhere : ∀ p a, tree.resolve p = .ok a → a ≠ place → tree'.read p = tree.read p

section
variable {path : Path} {place : Location}

theorem Takes.isFree (h : tree.Takes path place) : tree.IsFree place := by
  rcases h with ⟨-, old, hn⟩ | ⟨-, hn⟩
  · exact Or.inr ⟨old, hn⟩
  · exact Or.inl hn

theorem Takes.locate (h : tree.Takes path place) : tree.locate true path = .ok place := by
  rcases h with ⟨hr, old, hn⟩ | ⟨hl, -⟩
  · exact locate_of_resolve hr (by rw [isDirectory, hn])
  · exact hl

theorem exists_write_of_takes (h : tree.Takes path place) (content : Bytes) :
    ∃ f : File, tree.write path content = .ok (tree.put place (.file f)) ∧
      f.content = content ∧ (tree.ReadableAt place → f.readable = true) := by
  rw [write, h.locate]
  dsimp only
  rcases h.isFree with hn | ⟨old, hn⟩
  · rw [hn]
    exact ⟨⟨content, true⟩, rfl, rfl, fun _ => rfl⟩
  · rw [hn]
    exact ⟨⟨content, old.readable⟩, rfl, rfl, fun hr => hr old hn⟩

theorem write_of_takes (h : tree.Takes path place) (content : Bytes) :
    ∃ tree', tree.write path content = .ok tree' ∧ tree.Rewrites tree' path place content := by
  have hp := h.isFree
  obtain ⟨f, hw, hc, hf⟩ := exists_write_of_takes h content
  have hr := resolve_put hp f h.locate fun _ => rfl
  have hn : (tree.put place (.file f)).node? place = some (.file f) :=
    node?_put_self hp.ne_nil _
  refine ⟨_, hw, hr, ⟨f, hn, hc⟩, fun hreadable => ?_, fun other ho => node?_put_ne ho _, ?_⟩
  · rw [read, node, hr]
    simp only [hn, Option.elim_some]
    rw [if_pos (hf hreadable), hc]
  · intro p a ha hne
    have ha' := resolve_put hp f ha nofun
    rw [read, read, node, node, ha, ha']
    simp only [node?_put_ne hne]

end

end FileTree

end LineCensus
