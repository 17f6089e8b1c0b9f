import LineCensus.Path
import Mathlib.Data.List.Lex
import Mathlib.Data.List.Nodup
import Mathlib.Order.Lattice

/-!
# Keys

Lookups in lists of pairs, sorting by a key, and leaving out what repeats a key. Texts are ordered by
their code points and paths by their components. Both orders compare keys, so they tell apart exactly
what has different keys, and sorting what has no key twice makes each come before the next
(`pairwise_mergeSort`).
-/

namespace LineCensus

/-! ## Lookups -/

section
variable {κ α : Type} [BEq κ] [LawfulBEq κ] {k : κ} {a : α} {entries : List (κ × α)}

theorem mem_of_lookup (h : entries.lookup k = some a) : (k, a) ∈ entries := by
  obtain ⟨l, r, he, -⟩ := List.lookup_eq_some_iff.mp h
  rw [he]
  exact List.mem_append_right l (List.mem_cons_self ..)

theorem lookup_eq_some_iff_mem (hn : (entries.map Prod.fst).Nodup) :
    entries.lookup k = some a ↔ (k, a) ∈ entries := by
  refine ⟨mem_of_lookup, fun hm => ?_⟩
  obtain ⟨l, r, rfl⟩ := List.append_of_mem hm
  rw [List.map_append, List.map_cons, List.nodup_append] at hn
  have hfresh : ∀ p ∈ l, p.1 ≠ k := fun p hp =>
    hn.2.2 p.1 (List.mem_map_of_mem hp) k (List.mem_cons_self ..)
  refine List.lookup_eq_some_iff.mpr ⟨l, r, rfl, fun p hp => ?_⟩
  exact bne_iff_ne.mpr (hfresh p hp).symm

variable [DecidableEq κ]

theorem lookup_filter_ne {other : κ} (h : other ≠ k) (entries : List (κ × α)) :
    (entries.filter (·.1 ≠ k)).lookup other = entries.lookup other := by
  induction entries with
  | nil => rfl
  | cons p entries ih =>
    obtain ⟨here, value⟩ := p
    by_cases hp : here = k
    · have hne : (other == here) = false := beq_false_of_ne (hp ▸ h)
      rw [List.filter_cons_of_neg (by simpa using hp), ih, List.lookup_cons, hne]
    · rw [List.filter_cons_of_pos (by simpa using hp), List.lookup_cons, List.lookup_cons, ih]

/-- A pair that takes the place of those with its key changes what is found for that key only. -/
theorem lookup_replaced (entries : List (κ × α)) (k : κ) (a : α) (other : κ) :
    ((k, a) :: entries.filter (·.1 ≠ k)).lookup other =
      if k = other then some a else entries.lookup other := by
  by_cases h : k = other
  · rw [if_pos h, h, List.lookup_cons_self]
  · have hne : (other == k) = false := beq_false_of_ne (Ne.symm h)
    rw [if_neg h, List.lookup_cons, hne, ← lookup_filter_ne (Ne.symm h) entries]

end

/-! ## Orders -/

section
variable {α κ : Type} [LinearOrder κ] {before : α → α → Bool} {key : α → κ}
  (hb : ∀ a b, before a b = true ↔ key a < key b)
include hb

theorem not_before_iff (a b : α) : (!before b a) = true ↔ key a ≤ key b := by
  rw [Bool.not_eq_true', ← Bool.not_eq_true, hb, not_lt]

theorem pairwise_mergeSort {l : List α} (h : (l.map key).Nodup) :
    (l.mergeSort fun a b => !before b a).Pairwise fun a b => key a < key b := by
  have htrans (a b c : α) :
      (!before b a) = true → (!before c b) = true → (!before c a) = true := by
    simp only [not_before_iff hb]
    exact le_trans
  have htotal (a b : α) : (!before b a || !before a b) = true := by
    rw [Bool.or_eq_true, not_before_iff hb, not_before_iff hb]
    exact le_total _ _
  have hsorted := List.pairwise_mergeSort htrans htotal l
  have hne : (l.mergeSort fun a b => !before b a).Pairwise fun a b => key a ≠ key b :=
    List.pairwise_map.mp (((List.mergeSort_perm l _).map key).nodup_iff.mpr h)
  refine hsorted.imp₂ (fun a b hle hne => ?_) hne
  exact lt_of_le_of_ne ((not_before_iff hb a b).mp hle) hne

end

theorem lex_iff {κ : Type} [LinearOrder κ] [BEq κ] [LawfulBEq κ] {lt : κ → κ → Bool}
    (h : ∀ a b, lt a b = true ↔ a < b) (s t : List κ) : List.lex s t lt = true ↔ s < t := by
  rw [List.lex_eq_true_iff_lex]
  simp only [h]
  exact (List.lt_iff_lex_lt s t).symm

theorem blt_iff (a b : Nat) : Nat.blt a b = true ↔ a < b := by
  rw [Nat.blt_eq]

namespace Text

theorem before_iff (s t : Text) : before s t = true ↔ s.map Char.toNat < t.map Char.toNat :=
  lex_iff blt_iff _ _

end Text

namespace Path

theorem rank_injective : Function.Injective Component.rank := by
  intro a b h
  cases a <;> cases b <;> simp [Component.rank] at h ⊢
  exact (List.map_injective_iff.mpr fun c d hc => UInt8.toNat_inj.mp hc) h

theorem before_iff (p q : Path) : before p q = true ↔ key p < key q := by
  rw [before]
  exact lex_iff (lex_iff blt_iff) (key p) (key q)

theorem pairwise_before_mergeSort {ps : List Path} (h : (ps.map components).Nodup) :
    (ps.mergeSort fun p q => !before q p).Pairwise fun p q => before p q = true := by
  have hkeys : (ps.map key).Nodup := by
    rw [show key = List.map Component.rank ∘ components from rfl, ← List.map_map]
    exact List.Nodup.map (List.map_injective_iff.mpr rank_injective) h
  exact (pairwise_mergeSort before_iff hkeys).imp fun hlt => (before_iff _ _).mpr hlt

/-! ## Paths told apart by their components -/

/-- The paths without those that equal an earlier one by components. -/
def withoutRepeats : List Path → List Path
  | [] => []
  | p :: ps => p :: (withoutRepeats ps).filter fun q => components q ≠ components p

theorem distinctFrom_eq_filter (seen : List (List Component)) (ps : List Path) :
    distinctFrom seen ps = (withoutRepeats ps).filter fun q => components q ∉ seen := by
  induction ps generalizing seen with
  | nil => rfl
  | cons p ps ih =>
    rw [distinctFrom, withoutRepeats]
    by_cases hp : components p ∈ seen
    · rw [if_pos hp, ih, List.filter_cons_of_neg (by simpa using hp), List.filter_filter]
      apply List.filter_congr
      intro q _
      by_cases hq : components q = components p
      · simp [hq, hp]
      · simp [hq]
    · rw [if_neg hp, ih, List.filter_cons_of_pos (by simpa using hp), List.filter_filter]
      congr 1
      apply List.filter_congr
      intro q _
      simp only [List.mem_cons, not_or, Bool.decide_and, ne_eq]
      exact Bool.and_comm _ _

theorem distinct_eq_withoutRepeats (ps : List Path) : distinct ps = withoutRepeats ps := by
  rw [distinct, distinctFrom_eq_filter]
  simp

theorem mem_of_mem_withoutRepeats {p : Path} : ∀ {ps : List Path}, p ∈ withoutRepeats ps → p ∈ ps
  | [], h => h
  | q :: ps, h => by
    rcases List.mem_cons.mp h with rfl | h
    · exact List.mem_cons_self ..
    · exact List.mem_cons_of_mem _ (mem_of_mem_withoutRepeats (List.mem_filter.mp h).1)

theorem mem_map_components_withoutRepeats {c : List Component} : ∀ {ps : List Path},
    c ∈ (withoutRepeats ps).map components ↔ c ∈ ps.map components
  | [] => Iff.rfl
  | p :: ps => by
    rw [withoutRepeats, List.map_cons, List.map_cons, List.mem_cons, List.mem_cons,
      ← @mem_map_components_withoutRepeats c ps]
    by_cases hc : c = components p
    · exact iff_of_true (Or.inl hc) (Or.inl hc)
    · refine or_congr_right ⟨fun h => ?_, fun h => ?_⟩
      · obtain ⟨q, hq, rfl⟩ := List.mem_map.mp h
        exact List.mem_map_of_mem (List.mem_filter.mp hq).1
      · obtain ⟨q, hq, rfl⟩ := List.mem_map.mp h
        exact List.mem_map_of_mem (List.mem_filter.mpr ⟨hq, by simpa using hc⟩)

theorem nodup_map_components_withoutRepeats : ∀ ps : List Path,
    ((withoutRepeats ps).map components).Nodup
  | [] => List.nodup_nil
  | p :: ps => by
    rw [withoutRepeats, List.map_cons, List.nodup_cons]
    refine ⟨fun h => ?_, ?_⟩
    · obtain ⟨q, hq, he⟩ := List.mem_map.mp h
      simpa [he] using (List.mem_filter.mp hq).2
    · exact (nodup_map_components_withoutRepeats ps).sublist (List.filter_sublist.map components)

theorem nodup_withoutRepeats (ps : List Path) : (withoutRepeats ps).Nodup :=
  (nodup_map_components_withoutRepeats ps).of_map components

theorem withoutRepeats_append (ps qs : List Path) : withoutRepeats (ps ++ qs) =
    withoutRepeats ps ++ (withoutRepeats qs).filter fun q => components q ∉ ps.map components := by
  induction ps with
  | nil => simp [withoutRepeats]
  | cons p ps ih =>
    rw [List.cons_append, withoutRepeats, withoutRepeats, ih, List.filter_append,
      List.filter_filter, List.cons_append]
    congr 2
    apply List.filter_congr
    intro q _
    simp only [List.map_cons, List.mem_cons, not_or, Bool.decide_and, ne_eq]

theorem withoutRepeats_append_of_subset {ps qs : List Path} (h : ∀ q ∈ qs, q ∈ ps) :
    withoutRepeats (ps ++ qs) = withoutRepeats ps := by
  rw [withoutRepeats_append, List.filter_eq_nil_iff.mpr, List.append_nil]
  intro q hq
  have hm := List.mem_map_of_mem (f := components) (h q (mem_of_mem_withoutRepeats hq))
  simpa using hm

theorem perm_components_withoutRepeats {ps qs : List Path} (h : ps.Perm qs) :
    ((withoutRepeats ps).map components).Perm ((withoutRepeats qs).map components) := by
  refine (List.perm_ext_iff_of_nodup (nodup_map_components_withoutRepeats ps)
    (nodup_map_components_withoutRepeats qs)).mpr fun c => ?_
  rw [mem_map_components_withoutRepeats, mem_map_components_withoutRepeats]
  exact (h.map components).mem_iff

end Path

end LineCensus
