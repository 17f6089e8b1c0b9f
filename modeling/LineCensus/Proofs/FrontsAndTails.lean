import LineCensus.Proofs.Shrinking
import LineCensus.Proofs.TextSearch

/-!
# Fronts and tails

A tail that shares no character with a token neither hides the token nor brings it about. A front
that holds no delimiter, and neither the first character of a guarded token nor that of a mask, is
passed over. Searching, replacing and shrinking literals leave both where they are
(`strip_append_tail`, `strip_append_front`).
-/

namespace LineCensus

/-! ## Searching before a tail -/

namespace Text

section
variable {token u : Text} (h : ∀ c ∈ token, c ∉ u)
include h

theorem after?_append_tail (t : Text) : after? token (t ++ u) = (after? token t).map (· ++ u) := by
  induction token generalizing t with
  | nil => rfl
  | cons p ps ih =>
    have hp := h p (List.mem_cons_self ..)
    cases t with
    | nil =>
      cases u with
      | nil => rfl
      | cons c r =>
        have hc : p ≠ c := fun e => hp (e ▸ List.mem_cons_self ..)
        exact if_neg hc
    | cons c r =>
      rw [List.cons_append, after?, after?]
      split
      · exact ih (fun c hc => h c (List.mem_cons_of_mem _ hc)) r
      · rfl

theorem isSome_after?_append_tail (t : Text) :
    (after? token (t ++ u)).isSome = (after? token t).isSome := by
  rw [after?_append_tail h, Option.isSome_map]

theorem startsWith_append_tail {t : Text} : token <+: t ++ u ↔ token <+: t := by
  rw [← isSome_after?_iff, ← isSome_after?_iff, isSome_after?_append_tail h]

variable (ht : token ≠ [])
include ht

theorem after?_tail : after? token u = none := by
  have ha := after?_append_tail h []
  obtain ⟨p, ps, rfl⟩ := List.exists_cons_of_ne_nil ht
  exact ha

theorem occurs_tail : occurs token u = false := by
  induction u with
  | nil => simpa [occurs] using ht
  | cons c r ih =>
    rw [occurs, after?_tail h ht, ih fun c hc hr => h c hc (List.mem_cons_of_mem _ hr)]
    rfl

theorem occurs_append_tail (t : Text) : occurs token (t ++ u) = occurs token t := by
  induction t with
  | nil =>
    rw [List.nil_append, occurs_tail h ht, occurs]
    simpa using ht
  | cons c r ih =>
    rw [List.cons_append, occurs, occurs, ih, ← List.cons_append, isSome_after?_append_tail h]

theorem replaceFirst?_append_tail (other t : Text) :
    replaceFirst? token other (t ++ u) = (replaceFirst? token other t).map (· ++ u) := by
  induction t with
  | nil =>
    have hn : replaceFirst? token other u = none := by
      rw [← Option.not_isSome_iff_eq_none, isSome_replaceFirst?, occurs_tail h ht]
      decide
    rw [List.nil_append, hn, replaceFirst?, if_neg (by simpa using ht)]
    rfl
  | cons c r ih =>
    rw [List.cons_append, replaceFirst?, replaceFirst?, ← List.cons_append,
      after?_append_tail h, ih]
    cases after? token (c :: r) with
    | some rest => simp
    | none => cases replaceFirst? token other r <;> rfl

theorem replace_tail (other : Text) : replace token other u = u := by
  induction u with
  | nil => exact replace_nil other ht
  | cons c r ih =>
    have hn : ¬ token <+: c :: r := fun hp =>
      ht (List.prefix_nil.mp ((startsWith_append_tail h).mp hp))
    rw [replace_cons other ht hn, ih fun c hc hr => h c hc (List.mem_cons_of_mem _ hr)]

theorem replace_append_tail (other t : Text) :
    replace token other (t ++ u) = replace token other t ++ u := by
  induction t using token_induction ht with
  | nil => rw [replace_nil other ht]; exact replace_tail h ht other
  | found rest ih =>
    rw [List.append_assoc, replace_token_append other ht, replace_token_append other ht, ih,
      List.append_assoc]
  | cons c r hn ih =>
    have hn' : ¬ token <+: c :: (r ++ u) := fun hp =>
      hn ((startsWith_append_tail (t := c :: r) h).mp hp)
    rw [List.cons_append, replace_cons other ht hn', replace_cons other ht hn, ih, List.cons_append]

end

end Text

/-! ## Shrinking before a tail -/

namespace Literal

section
variable {α : Type} [DecidableEq α] {d stop x : α} {u : List α} (hd : d ∉ u)
include hd

theorem pastNext?_tail : pastNext? d stop u = none := by
  induction u with
  | nil => rfl
  | cons a r ih =>
    rw [List.mem_cons, not_or] at hd
    rw [pastNext?, if_neg (Ne.symm hd.1), ih hd.2, ite_self]

theorem collapse_append_tail (l : List α) :
    collapse d stop x (l ++ u) = collapse d stop x l ++ u := by
  rw [collapse_append (pastNext?_tail hd), collapse_of_not_mem hd]

end

theorem shrink_append_tail {d : Char} {u : Text} (hd : d ∉ u) (t : Text) :
    shrink d (t ++ u) = shrink d t ++ u := by
  rw [shrink_eq_collapse, shrink_eq_collapse, collapse_append_tail hd]

end Literal

namespace Stripper

/-- Exchanging tokens one after the other leaves a tail alone that shares no character with them. -/
theorem foldl_replace_append_tail {u : Text} {changes : List (Text × Text)}
    (h : ∀ change ∈ changes, change.1 ≠ [] ∧ ∀ c ∈ change.1, c ∉ u) (t : Text) :
    changes.foldl (fun t change => Text.replace change.1 change.2 t) (t ++ u) =
      changes.foldl (fun t change => Text.replace change.1 change.2 t) t ++ u := by
  induction changes generalizing t with
  | nil => rfl
  | cons change changes ih =>
    obtain ⟨hn, hc⟩ := h change (List.mem_cons_self ..)
    rw [List.foldl_cons, List.foldl_cons, Text.replace_append_tail hc hn,
      ih fun change hm => h change (List.mem_cons_of_mem _ hm)]

theorem hide_eq_foldl (s : Stripper) (t : Text) : s.hide t =
    (s.guarded.zipIdx.map fun g => (g.1, mask g.2)).foldl
      (fun t change => Text.replace change.1 change.2 t) t := by
  rw [List.foldl_map]; rfl

theorem reveal_eq_foldl (s : Stripper) (t : Text) : s.reveal t =
    (s.guarded.zipIdx.map fun g => (mask g.2, g.1)).foldl
      (fun t change => Text.replace change.1 change.2 t) t := by
  rw [List.foldl_map]; rfl

section
variable {s : Stripper} {u : Text} (hd : ∀ l : Literal, l.delimiter ∉ u)
  (hg : ∀ token ∈ s.guarded, token ≠ [] ∧ ∀ c ∈ token, c ∉ u)
  (hm : ∀ i, ∀ c ∈ mask i, c ∉ u)

include hd in
theorem shrinkAll_append_tail (t : Text) : s.shrinkAll (t ++ u) = s.shrinkAll t ++ u := by
  unfold shrinkAll
  induction s.literals generalizing t with
  | nil => rfl
  | cons l ls ih =>
    rw [List.foldl_cons, List.foldl_cons, Literal.shrink_append_tail (hd l), ih]

include hg in
theorem hide_append_tail (t : Text) : s.hide (t ++ u) = s.hide t ++ u := by
  rw [hide_eq_foldl, hide_eq_foldl]
  apply foldl_replace_append_tail
  intro change hc
  obtain ⟨g, hz, rfl⟩ := List.mem_map.mp hc
  exact hg g.1 (List.fst_mem_of_mem_zipIdx hz)

include hm in
theorem reveal_append_tail (t : Text) : s.reveal (t ++ u) = s.reveal t ++ u := by
  rw [reveal_eq_foldl, reveal_eq_foldl]
  apply foldl_replace_append_tail
  intro change hc
  obtain ⟨g, -, rfl⟩ := List.mem_map.mp hc
  exact ⟨mask_ne_nil g.2, hm g.2⟩

include hg hm in
theorem masks_append_tail (t : Text) : s.masks (t ++ u) = s.masks t := by
  have hf : u.contains frame = false := by
    have := hm 0 frame (List.mem_cons_self ..)
    simpa using this
  have ho : s.guarded.any (Text.occurs · (t ++ u)) = s.guarded.any (Text.occurs · t) := by
    rw [Bool.eq_iff_iff, List.any_eq_true, List.any_eq_true]
    refine exists_congr fun token => and_congr_right fun hk => ?_
    rw [Text.occurs_append_tail (hg token hk).2 (hg token hk).1]
  rw [masks, masks, ho, List.contains_append, hf, Bool.or_false]

include hd hg hm in
theorem strip_append_tail (t : Text) : s.strip (t ++ u) = s.strip t ++ u := by
  unfold strip
  rw [masks_append_tail hg hm]
  split
  · rfl
  split
  · rw [hide_append_tail hg, shrinkAll_append_tail hd, reveal_append_tail hm]
  · exact shrinkAll_append_tail hd t

end

end Stripper

/-! ## Searching behind a front -/

namespace Text

section
variable {first : Char} {more u : Text} (h : first ∉ u)
include h

theorem occurs_append_front (t : Text) :
    occurs (first :: more) (u ++ t) = occurs (first :: more) t := by
  induction u with
  | nil => rfl
  | cons c u ih =>
    rw [List.mem_cons, not_or] at h
    rw [List.cons_append, occurs, after?, if_neg h.1, ih h.2]
    rfl

theorem replaceFirst?_append_front (other t : Text) :
    replaceFirst? (first :: more) other (u ++ t) =
      (replaceFirst? (first :: more) other t).map (u ++ ·) := by
  induction u with
  | nil => exact Option.map_id'.symm
  | cons c u ih =>
    rw [List.mem_cons, not_or] at h
    rw [List.cons_append, replaceFirst?, after?, if_neg h.1]
    dsimp only
    rw [ih h.2, Option.map_map]
    rfl

end

end Text

/-! ## Stripping behind a front -/

namespace Stripper

variable {u : Text}

/-- Exchanging tokens one after the other begins behind a front in which none of them can start. -/
theorem foldl_replace_append_front {changes : List (Text × Text)}
    (h : ∀ change ∈ changes, ∃ first more, change.1 = first :: more ∧ first ∉ u) (t : Text) :
    changes.foldl (fun t change => Text.replace change.1 change.2 t) (u ++ t) =
      u ++ changes.foldl (fun t change => Text.replace change.1 change.2 t) t := by
  induction changes generalizing t with
  | nil => rfl
  | cons change changes ih =>
    obtain ⟨first, more, he, hu⟩ := h change (List.mem_cons_self ..)
    rw [List.foldl_cons, List.foldl_cons, he, Text.replace_append_of_not_mem change.2 hu,
      ih fun change hm => h change (List.mem_cons_of_mem _ hm)]

section
variable {s : Stripper} (hd : ∀ l ∈ s.literals, l.delimiter ∉ u)
  (hg : ∀ token ∈ s.guarded, ∃ first more, token = first :: more ∧ first ∉ u)
  (hf : frame ∉ u)

include hd in
theorem shrinkAll_append_front (t : Text) : s.shrinkAll (u ++ t) = u ++ s.shrinkAll t := by
  unfold shrinkAll
  generalize s.literals = ls at hd
  induction ls generalizing t with
  | nil => rfl
  | cons l ls ih =>
    have hl : Literal.shrink l.delimiter (u ++ t) = u ++ Literal.shrink l.delimiter t := by
      rw [Literal.shrink_eq_collapse, Literal.shrink_eq_collapse]
      exact Literal.collapse_append_of_not_mem (hd l (List.mem_cons_self ..)) t
    rw [List.foldl_cons, List.foldl_cons, hl, ih _ fun k hk => hd k (List.mem_cons_of_mem _ hk)]

include hg in
theorem hide_append_front (t : Text) : s.hide (u ++ t) = u ++ s.hide t := by
  rw [hide_eq_foldl, hide_eq_foldl]
  apply foldl_replace_append_front
  intro change hc
  obtain ⟨g, hz, rfl⟩ := List.mem_map.mp hc
  exact hg g.1 (List.fst_mem_of_mem_zipIdx hz)

include hf in
theorem reveal_append_front (t : Text) : s.reveal (u ++ t) = u ++ s.reveal t := by
  rw [reveal_eq_foldl, reveal_eq_foldl]
  apply foldl_replace_append_front
  intro change hc
  obtain ⟨g, -, rfl⟩ := List.mem_map.mp hc
  exact ⟨frame, _, rfl, hf⟩

include hg hf in
theorem masks_append_front (t : Text) : s.masks (u ++ t) = s.masks t := by
  have hc : u.contains frame = false := by simpa using hf
  have ho : s.guarded.any (Text.occurs · (u ++ t)) = s.guarded.any (Text.occurs · t) := by
    rw [Bool.eq_iff_iff, List.any_eq_true, List.any_eq_true]
    refine exists_congr fun token => and_congr_right fun hk => ?_
    obtain ⟨first, more, rfl, hu⟩ := hg token hk
    rw [Text.occurs_append_front hu]
  rw [masks, masks, ho, List.contains_append, hc, Bool.false_or]

include hd hg hf in
theorem strip_append_front (t : Text) : s.strip (u ++ t) = u ++ s.strip t := by
  unfold strip
  rw [masks_append_front hg hf]
  split
  · rfl
  split
  · rw [hide_append_front hg, shrinkAll_append_front hd, reveal_append_front hf]
  · exact shrinkAll_append_front hd t

end

end Stripper

end LineCensus
