import LineCensus.Language
import LineCensus.Proofs.Keys
import Mathlib.Data.List.Induction
import Mathlib.Logic.Pairwise

/-!
# Registering extensions

A look-up ignores case, a registration ignores case and leading dots. Of all registrations that
meet a look-up the last one counts, and the lists of extensions say the same: an extension is in the
list of the language that it stands for and in no other (`registerAll_partitions`).
-/

namespace LineCensus.Extensions

/-! ## One registration -/

theorem language?_register (m : Extensions) (s : Text × Language) (extension : Text) :
    (m.register s.1 s.2).language? extension =
      if Text.lowercase (s.1.dropWhile (· == '.')) = Text.lowercase extension then some s.2
      else m.language? extension :=
  lookup_replaced m.entries _ s.2 (Text.lowercase extension)

/-! ## Runs of registrations -/

def registerAll (m : Extensions) (steps : List (Text × Language)) : Extensions :=
  steps.foldl (fun m s => m.register s.1 s.2) m

/-- The language of the last registration that meets a look-up of an extension. -/
def lastFor? (extension : Text) (steps : List (Text × Language)) : Option Language :=
  (steps.filter fun s =>
    Text.lowercase (s.1.dropWhile (· == '.')) = Text.lowercase extension).getLast?.map Prod.snd

theorem registerAll_snoc (m : Extensions) (steps : List (Text × Language)) (s : Text × Language) :
    m.registerAll (steps ++ [s]) = (m.registerAll steps).register s.1 s.2 := by
  rw [registerAll, List.foldl_append]
  rfl

theorem lastFor?_snoc (extension : Text) (steps : List (Text × Language)) (s : Text × Language) :
    lastFor? extension (steps ++ [s]) =
      if Text.lowercase (s.1.dropWhile (· == '.')) = Text.lowercase extension then some s.2
      else lastFor? extension steps := by
  unfold lastFor?
  rw [List.filter_append]
  by_cases h : Text.lowercase (s.1.dropWhile (· == '.')) = Text.lowercase extension
  · rw [List.filter_cons_of_pos (by simpa using h), List.filter_nil, List.getLast?_concat, if_pos h]
    rfl
  · rw [List.filter_cons_of_neg (by simpa using h), List.filter_nil, List.append_nil, if_neg h]

theorem language?_registerAll (m : Extensions) (steps : List (Text × Language))
    (extension : Text) : (m.registerAll steps).language? extension =
      (lastFor? extension steps).or (m.language? extension) := by
  induction steps using List.reverseRecOn with
  | nil => rfl
  | append_singleton steps s ih =>
    rw [registerAll_snoc, language?_register, lastFor?_snoc]
    by_cases h : Text.lowercase (s.1.dropWhile (· == '.')) = Text.lowercase extension
    · rw [if_pos h, if_pos h, Option.some_or]
    · rw [if_neg h, if_neg h, ih]

/-! ## The extensions for a language -/

section
variable (m : Extensions)

theorem mem_extensionsFor {extension : Text} {l : Language} :
    extension ∈ m.extensionsFor l ↔ m.entries.lookup extension = some l := by
  rw [extensionsFor, List.mem_mergeSort, lookup_eq_some_iff_mem m.nodup, List.mem_map]
  constructor
  · intro ⟨p, hp, hx⟩
    obtain ⟨hm, hl⟩ := List.mem_filter.mp hp
    rw [← hx, ← of_decide_eq_true hl]
    exact hm
  · intro hm
    exact ⟨_, List.mem_filter.mpr ⟨hm, decide_eq_true rfl⟩, rfl⟩

theorem language?_eq_some_iff {extension : Text} {l : Language} :
    m.language? extension = some l ↔ Text.lowercase extension ∈ m.extensionsFor l :=
  (m.mem_extensionsFor).symm

theorem pairwise_disjoint_extensionsFor :
    Pairwise fun l l' => List.Disjoint (m.extensionsFor l) (m.extensionsFor l') := by
  intro l l' h extension hl hl'
  rw [mem_extensionsFor] at hl hl'
  exact h (Option.some.inj (hl.symm.trans hl'))

theorem pairwise_extensionsFor (l : Language) :
    (m.extensionsFor l).Pairwise fun s t => s.map Char.toNat < t.map Char.toNat := by
  apply pairwise_mergeSort Text.before_iff
  have hinj : Function.Injective (List.map Char.toNat) :=
    List.map_injective_iff.mpr fun c d hc => Char.toNat_inj.mp hc
  have hnodup : ((m.entries.filter (·.2 = l)).map Prod.fst).Nodup :=
    m.nodup.sublist (List.filter_sublist.map Prod.fst)
  exact hnodup.map hinj

end

/-- The last registration decides which language an extension stands for, and the lists of
extensions say the same: each is in order and holds nothing twice, none shares an extension with
another, and an extension stands for the language in whose list it is. -/
theorem registerAll_partitions (m : Extensions) (steps : List (Text × Language))
    (extension : Text) :
    (m.registerAll steps).language? extension =
      (lastFor? extension steps).or (m.language? extension) ∧
    (∀ l, ((m.registerAll steps).extensionsFor l).Pairwise
      fun s t => s.map Char.toNat < t.map Char.toNat) ∧
    (Pairwise fun l l' => List.Disjoint ((m.registerAll steps).extensionsFor l)
      ((m.registerAll steps).extensionsFor l')) ∧
    ∀ l, (m.registerAll steps).language? extension = some l ↔
      Text.lowercase extension ∈ (m.registerAll steps).extensionsFor l := by
  refine ⟨language?_registerAll m steps extension, ?_, pairwise_disjoint_extensionsFor _, ?_⟩
  · intro l
    exact pairwise_extensionsFor _ l
  · intro l
    exact language?_eq_some_iff _

end LineCensus.Extensions
