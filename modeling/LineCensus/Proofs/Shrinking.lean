import LineCensus.Literal
import LineCensus.Proofs.TextSearch

/-!
# Shrinking, read from the front

`Literal.shrinkFrom` holds characters back until it is known whether a literal ends. `collapse` looks
ahead instead: a span runs to the nearest delimiter before the next stop, or there is none and the
delimiter stays. On texts the two agree (`shrink_eq_collapse`); `collapse` also runs on other
sequences than characters.
-/

namespace LineCensus

namespace Literal

/-! ## Spans -/

section
variable {α : Type} [DecidableEq α]

/-- What follows the nearest `d`, if there is one before the next `stop`. -/
def pastNext? (d stop : α) : List α → Option (List α)
  | [] => none
  | a :: r => if a = d then some r else if a = stop then none else pastNext? d stop r

theorem length_lt_of_pastNext? {d stop : α} : ∀ {l rest : List α},
    pastNext? d stop l = some rest → rest.length < l.length
  | [], _, h => by cases h
  | a :: r, rest, h => by
    unfold pastNext? at h
    split at h
    · cases h; simp
    · split at h
      · cases h
      · have := length_lt_of_pastNext? h
        simp only [List.length_cons]; omega

/-- Exchanges each span from one `d` to the nearest one before the next `stop` for `x`. -/
def collapse (d stop x : α) (l : List α) : List α :=
  match l with
  | [] => []
  | a :: r =>
    if a = d then
      match h : pastNext? d stop r with
      | some rest =>
        have := length_lt_of_pastNext? h
        x :: collapse d stop x rest
      | none => a :: collapse d stop x r
    else a :: collapse d stop x r
termination_by l.length
decreasing_by all_goals simp only [List.length_cons]; omega

theorem pastNext?_append_of_not_mem {d stop : α} {u : List α} (hd : d ∉ u) (hs : stop ∉ u)
    (l : List α) : pastNext? d stop (u ++ l) = pastNext? d stop l := by
  induction u with
  | nil => rfl
  | cons a u ih =>
    rw [List.mem_cons, not_or] at hd hs
    rw [List.cons_append, pastNext?, if_neg (Ne.symm hd.1), if_neg (Ne.symm hs.1), ih hd.2 hs.2]

section
variable {d stop : α} {l rest : List α}

theorem exists_body_of_pastNext? (h : pastNext? d stop l = some rest) :
    ∃ body, d ∉ body ∧ stop ∉ body ∧ l = body ++ d :: rest := by
  induction l with
  | nil => cases h
  | cons a l ih =>
    rw [pastNext?] at h
    split at h
    · next ha =>
      cases h
      exact ⟨[], List.not_mem_nil, List.not_mem_nil, by rw [ha]; rfl⟩
    · next ha =>
      split at h
      · cases h
      · next hs =>
        obtain ⟨body, hd, hb, rfl⟩ := ih h
        exact ⟨a :: body, by simp [hd, Ne.symm ha], by simp [hb, Ne.symm hs], rfl⟩

theorem suffix_of_pastNext? (h : pastNext? d stop l = some rest) : rest <:+ l := by
  obtain ⟨body, -, -, rfl⟩ := exists_body_of_pastNext? h
  exact Text.suffix_append_cons body d rest

theorem not_mem_of_pastNext?_none (hs : stop ∉ l) (h : pastNext? d stop l = none) : d ∉ l := by
  induction l with
  | nil => exact List.not_mem_nil
  | cons a l ih =>
    rw [List.mem_cons, not_or] at hs
    rw [pastNext?] at h
    split at h
    · cases h
    · next ha =>
      rw [if_neg (Ne.symm hs.1)] at h
      rw [List.mem_cons, not_or]
      exact ⟨Ne.symm ha, ih hs.2 h⟩

end

section
variable {d stop x : α}

theorem collapse_nil : collapse d stop x [] = [] := by rw [collapse]

theorem collapse_cons_of_ne {a : α} (h : a ≠ d) (r : List α) :
    collapse d stop x (a :: r) = a :: collapse d stop x r := by
  rw [collapse, if_neg h]

theorem collapse_of_closed {r rest : List α} (h : pastNext? d stop r = some rest) :
    collapse d stop x (d :: r) = x :: collapse d stop x rest := by
  rw [collapse, if_pos rfl]
  split <;> simp_all

theorem collapse_of_lone {r : List α} (h : pastNext? d stop r = none) :
    collapse d stop x (d :: r) = d :: collapse d stop x r := by
  rw [collapse, if_pos rfl]
  split <;> simp_all

section
variable {u : List α} (hu : pastNext? d stop u = none)
include hu

theorem pastNext?_append (l : List α) :
    pastNext? d stop (l ++ u) = (pastNext? d stop l).map (· ++ u) := by
  induction l with
  | nil => exact hu
  | cons a r ih =>
    rw [List.cons_append, pastNext?, pastNext?, ih]
    split
    · rfl
    · split <;> rfl

/-- A pass works on two parts by themselves if none of its spans can end in the second one. -/
theorem collapse_append (l : List α) :
    collapse d stop x (l ++ u) = collapse d stop x l ++ collapse d stop x u := by
  fun_induction collapse d stop x l with
  | case1 => rfl
  | case2 r rest h _ ih =>
    have hc : pastNext? d stop (r ++ u) = some (rest ++ u) := by
      rw [pastNext?_append hu, h, Option.map_some]
    rw [List.cons_append, collapse_of_closed hc, ih, List.cons_append]
  | case3 r h ih =>
    rw [List.cons_append, collapse_of_lone, ih, List.cons_append]
    rw [pastNext?_append hu, h, Option.map_none]
  | case4 a r ha ih => rw [List.cons_append, collapse_cons_of_ne ha, ih, List.cons_append]

end

theorem collapse_append_of_not_mem {u : List α} (h : d ∉ u) (l : List α) :
    collapse d stop x (u ++ l) = u ++ collapse d stop x l := by
  induction u with
  | nil => rfl
  | cons a u ih =>
    rw [List.mem_cons, not_or] at h
    rw [List.cons_append, collapse_cons_of_ne (Ne.symm h.1), ih h.2]
    rfl

theorem mem_collapse {a : α} {l : List α} (h : a ∈ collapse d stop x l) : a ∈ l ∨ a = x := by
  fun_induction collapse d stop x l with
  | case1 => cases h
  | case2 r rest hn _ ih =>
    rcases List.mem_cons.mp h with rfl | h
    · exact Or.inr rfl
    · exact (ih h).imp_left fun ha => List.mem_cons_of_mem _ ((suffix_of_pastNext? hn).mem ha)
  | case3 r hn ih =>
    rcases List.mem_cons.mp h with rfl | h
    · exact Or.inl (List.mem_cons_self ..)
    · exact (ih h).imp_left (List.mem_cons_of_mem _)
  | case4 b r hb ih =>
    rcases List.mem_cons.mp h with rfl | h
    · exact Or.inl (List.mem_cons_self ..)
    · exact (ih h).imp_left (List.mem_cons_of_mem _)

theorem collapse_of_not_mem {l : List α} (h : d ∉ l) : collapse d stop x l = l := by
  have ha : collapse d stop x (l ++ []) = l ++ collapse d stop x [] :=
    collapse_append_of_not_mem h []
  rw [collapse_nil, List.append_nil] at ha
  exact ha

end

/-! ## What stands together behind a pass -/

section
variable {β : Type} (spell : α → List β) {d stop x : α} {x' : β} (hx : spell x = [x'])
include hx

theorem prefix_of_prefix_flatMap_collapse {w : List β} (hw : x' ∉ w) {l : List α}
    (h : w <+: (collapse d stop x l).flatMap spell) : w <+: l.flatMap spell := by
  fun_induction collapse d stop x l generalizing w with
  | case1 => exact h
  | case2 r rest hn _ ih =>
    rw [List.flatMap_cons, hx] at h
    rw [Text.eq_nil_of_prefix_cons hw h]
    exact List.nil_prefix
  | case3 r hn ih | case4 a r ha ih =>
    rw [List.flatMap_cons] at h ⊢
    exact Text.prefix_append_of_suffix h fun w' hs hp => ih (fun hm => hw (hs.mem hm)) hp

/-- What stands together behind a pass, when all is spelled out, stood together before it, unless what
the pass put in is part of it. -/
theorem infix_of_infix_flatMap_collapse {w : List β} (hw : x' ∉ w) {l : List α}
    (h : w <:+: (collapse d stop x l).flatMap spell) : w <:+: l.flatMap spell := by
  fun_induction collapse d stop x l with
  | case1 => exact h
  | case2 r rest hn _ ih =>
    rw [List.flatMap_cons, hx, List.singleton_append] at h
    rcases List.infix_cons_iff.mp h with hp | hi
    · rw [Text.eq_nil_of_prefix_cons hw hp]
      exact List.nil_infix
    · have hr : rest <:+ d :: r := (suffix_of_pastNext? hn).trans (List.suffix_cons ..)
      exact (ih hi).trans (Text.infix_flatMap hr.isInfix spell)
  | case3 r hn ih | case4 a r ha ih =>
    rw [List.flatMap_cons] at h ⊢
    rcases List.infix_append_iff.mp h with hs | hr | ⟨w₁, w₂, rfl, hs, hp⟩
    · exact hs.trans (List.prefix_append ..).isInfix
    · exact (ih hr).trans (List.suffix_append ..).isInfix
    · have hw₂ : x' ∉ w₂ := fun hm => hw (List.mem_append_right _ hm)
      exact List.infix_append_iff.mpr
        (Or.inr (Or.inr ⟨w₁, w₂, rfl, hs, prefix_of_prefix_flatMap_collapse spell hx hw₂ hp⟩))

end

/-! ## Pass after pass -/

def collapseAll (code : Literal → α) (stop x : α) (kinds : List Literal) (l : List α) : List α :=
  kinds.foldl (fun l k => collapse (code k) stop x l) l

theorem mem_collapseAll {code : Literal → α} {stop x a : α} {kinds : List Literal} {l : List α}
    (h : a ∈ collapseAll code stop x kinds l) : a ∈ l ∨ a = x := by
  induction kinds generalizing l with
  | nil => exact Or.inl h
  | cons k kinds ih =>
    rcases ih h with hm | hx
    · exact mem_collapse hm
    · exact Or.inr hx

end

/-! ## Spans of symbols -/

/-- Symbols are spelled so that the delimiter and the stop stand for one letter each, and no other
symbol holds these letters. -/
structure Spelling {α β : Type} (spell : α → List β) (d stop : α) (d' stop' : β) : Prop where
  spell_delimiter : spell d = [d']
  spell_stop : spell stop = [stop']
  ne : d' ≠ stop'
  other : ∀ a, a ≠ d → a ≠ stop → d' ∉ spell a ∧ stop' ∉ spell a

section
variable {α β : Type} [DecidableEq α] {spell : α → List β} {d stop : α} {d' stop' : β}
  (h : Spelling spell d stop d' stop')
include h

theorem Spelling.not_mem {a : α} (ha : a ≠ d) : d' ∉ spell a := by
  by_cases hs : a = stop
  · rw [hs, h.spell_stop, List.mem_singleton]
    exact h.ne
  · exact (h.other a ha hs).1

variable [DecidableEq β]

theorem pastNext?_flatMap (l : List α) : pastNext? d' stop' (l.flatMap spell) =
    (pastNext? d stop l).map fun rest => rest.flatMap spell := by
  induction l with
  | nil => rfl
  | cons a r ih =>
    rw [List.flatMap_cons, pastNext?]
    by_cases hd : a = d
    · rw [hd, h.spell_delimiter, List.singleton_append, pastNext?, if_pos rfl, if_pos rfl]
      rfl
    by_cases hs : a = stop
    · rw [if_neg hd, if_pos hs, hs, h.spell_stop, List.singleton_append, pastNext?,
        if_neg (Ne.symm h.ne), if_pos rfl]
      rfl
    · obtain ⟨hd', hs'⟩ := h.other a hd hs
      rw [if_neg hd, if_neg hs, pastNext?_append_of_not_mem hd' hs', ih]

theorem collapse_flatMap {x : α} {x' : β} (hx : spell x = [x']) (l : List α) :
    collapse d' stop' x' (l.flatMap spell) = (collapse d stop x l).flatMap spell := by
  fun_induction collapse d stop x l with
  | case1 => exact collapse_nil
  | case2 r rest hn _ ih =>
    have hc : pastNext? d' stop' (r.flatMap spell) = some (rest.flatMap spell) := by
      rw [pastNext?_flatMap h, hn]; rfl
    rw [List.flatMap_cons, List.flatMap_cons, hx, ← ih, h.spell_delimiter]
    exact collapse_of_closed hc
  | case3 r hn ih =>
    have hc : pastNext? d' stop' (r.flatMap spell) = none := by rw [pastNext?_flatMap h, hn]; rfl
    rw [List.flatMap_cons, List.flatMap_cons, ← ih, h.spell_delimiter]
    exact collapse_of_lone hc
  | case4 a r ha ih =>
    rw [List.flatMap_cons, List.flatMap_cons, collapse_append_of_not_mem (h.not_mem ha), ih]

end

/-! ## Literals are spans -/

theorem delimiter_ne_newline (l : Literal) : l.delimiter ≠ '\n' := by cases l <;> decide

theorem delimiter_ne_placeholder (l : Literal) : l.delimiter ≠ placeholder := by cases l <;> decide

theorem shrink_cons_of_ne {d c : Char} (h : c ≠ d) (r : Text) :
    shrink d (c :: r) = c :: shrink d r := by
  unfold shrink
  rw [shrinkFrom, if_neg h]

theorem shrinkFrom_held (d : Char) : ∀ (t held : Text), shrinkFrom d (some held) t =
    match pastNext? d '\n' t with
    | some rest => placeholder :: shrink d rest
    | none => d :: held.reverse ++ shrink d t
  | [], held => by simp [shrinkFrom, pastNext?, shrink]
  | c :: r, held => by
    by_cases hd : c = d
    · simp [shrinkFrom, pastNext?, hd, shrink]
    by_cases hn : c = '\n'
    · subst hn
      rw [shrink_cons_of_ne hd]
      simp [shrinkFrom, pastNext?, hd, shrink]
    · rw [shrink_cons_of_ne hd, shrinkFrom, if_neg hd, if_neg hn, shrinkFrom_held d r]
      simp [pastNext?, hd, hn]

theorem shrink_delimiter (d : Char) (r : Text) : shrink d (d :: r) =
    match pastNext? d '\n' r with
    | some rest => placeholder :: shrink d rest
    | none => d :: shrink d r := by
  rw [show shrink d (d :: r) = shrinkFrom d (some []) r by simp [shrink, shrinkFrom],
    shrinkFrom_held]
  rfl

theorem shrink_eq_collapse (d : Char) (t : Text) : shrink d t = collapse d '\n' placeholder t := by
  fun_induction collapse d '\n' placeholder t with
  | case1 => rfl
  | case2 r rest h _ ih => rw [shrink_delimiter, h, ← ih]
  | case3 r h ih => rw [shrink_delimiter, h, ← ih]
  | case4 c r hc ih => rw [shrink_cons_of_ne hc, ih]

end Literal

namespace Stripper

theorem mask_ne_nil (i : Nat) : mask i ≠ [] := by simp [mask]

theorem shrinkAll_eq_collapseAll (s : Stripper) (t : Text) : s.shrinkAll t =
    Literal.collapseAll Literal.delimiter '\n' Literal.placeholder s.literals t := by
  simp only [shrinkAll, Literal.collapseAll, Literal.shrink_eq_collapse]

theorem mem_shrinkAll {s : Stripper} {c : Char} {t : Text} (h : c ∈ s.shrinkAll t) :
    c ∈ t ∨ c = Literal.placeholder := by
  rw [shrinkAll_eq_collapseAll] at h
  exact Literal.mem_collapseAll h

theorem strip_of_no_masks {s : Stripper} {t : Text} (h : s.masks t = false) :
    s.strip t = s.shrinkAll t := by
  unfold strip
  split
  · next hl => rw [shrinkAll, List.isEmpty_iff.mp hl]; rfl
  · rw [h, if_neg Bool.false_ne_true]

theorem strip_of_no_token {s : Stripper} {t : Text}
    (h : ∀ token ∈ s.guarded, Text.occurs token t = false) : s.strip t = s.shrinkAll t := by
  have ho : s.guarded.any (Text.occurs · t) = false := by
    rw [List.any_eq_false]
    exact fun token hk => by rw [h token hk]; exact Bool.false_ne_true
  exact strip_of_no_masks (by rw [masks, ho, Bool.and_false])

theorem strip_of_frame {s : Stripper} {t : Text} (h : frame ∈ t) : s.strip t = s.shrinkAll t :=
  strip_of_no_masks (by rw [masks, List.contains_iff_mem.mpr h]; rfl)

theorem strip_of_unguarded {s : Stripper} (h : s.guarded = []) (t : Text) :
    s.strip t = s.shrinkAll t :=
  strip_of_no_token (by rw [h]; exact List.forall_mem_nil _)

end Stripper

end LineCensus
