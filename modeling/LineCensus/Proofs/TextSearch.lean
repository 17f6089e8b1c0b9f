import LineCensus.Text.Basic

/-!
# Searching texts

How markers are met from the left, what the characters before the first that is not blank say, what
stands together in a text that is spelled out or cut, replacing as a recursion, and cutting at a mark
part by part.
-/

namespace LineCensus.Text

/-! ## Markers -/

theorem isSome_after?_iff {token t : Text} : (after? token t).isSome = true ↔ token <+: t := by
  rw [Option.isSome_iff_exists]
  exact exists_congr fun rest => after?_eq_some_iff.trans eq_comm

theorem after?_pair_eq_none {a b c : Char} {r : Text} (h : ∀ tail, c = a → r = b :: tail → False) :
    after? [a, b] (c :: r) = none := by
  cases hp : after? [a, b] (c :: r) with
  | none => rfl
  | some rest =>
    have he := after?_eq_some_iff.mp hp
    simp only [List.cons_append, List.nil_append, List.cons.injEq] at he
    exact absurd (h rest he.1 he.2) id

theorem occurs_pair_cons {a b c : Char} {r : Text} (h : ∀ tail, c = a → r = b :: tail → False) :
    occurs [a, b] (c :: r) = occurs [a, b] r := by
  rw [occurs, after?_pair_eq_none h]; rfl

/-! ## Blanks in front -/

theorem unindented_cons_of_blank {c : Char} (h : isBlank c = true) (r : Text) :
    unindented (c :: r) = unindented r :=
  List.dropWhile_cons_of_pos h

theorem unindented_cons_of_not_blank {c : Char} (h : isBlank c = false) (r : Text) :
    unindented (c :: r) = c :: r :=
  List.dropWhile_cons_of_neg (by simp [h])

theorem blank_eq_isEmpty_unindented (t : Text) : blank t = (unindented t).isEmpty := by
  induction t with
  | nil => rfl
  | cons c r ih =>
    cases hc : isBlank c with
    | true => rw [unindented_cons_of_blank hc, ← ih]; simp [blank, hc]
    | false => rw [unindented_cons_of_not_blank hc]; simp [blank, hc]

theorem blank_eq_false_of_mem {c : Char} {t : Text} (hc : c ∈ t) (h : isBlank c = false) :
    blank t = false := by
  rw [blank, List.all_eq_false]
  exact ⟨c, hc, by simp [h]⟩

theorem mem_of_occurs {token t : Text} {c : Char} (h : occurs token t = true) (hc : c ∈ token) :
    c ∈ t :=
  (occurs_iff.mp h).subset hc

theorem occurs_of_blank {token t : Text} {c : Char} (hc : c ∈ token) (hn : isBlank c = false)
    (h : blank t = true) : occurs token t = false := by
  cases ho : occurs token t with
  | false => rfl
  | true =>
    rw [blank_eq_false_of_mem (mem_of_occurs ho hc) hn] at h
    cases h

theorem occurs_of_occurs_unindented {token t : Text} (h : occurs token (unindented t) = true) :
    occurs token t = true :=
  occurs_iff.mpr ((occurs_iff.mp h).trans (List.dropWhile_suffix _).isInfix)

/-! ## What stands together -/

section
variable {α : Type}

theorem eq_nil_of_prefix_cons {a : α} {w l : List α} (ha : a ∉ w) (h : w <+: a :: l) : w = [] := by
  cases w with
  | nil => rfl
  | cons b w => exact absurd ((List.cons_prefix_cons.mp h).1 ▸ List.mem_cons_self ..) ha

theorem suffix_append_cons (l : List α) (a : α) (r : List α) : r <:+ l ++ a :: r :=
  (List.suffix_cons a r).trans (List.suffix_append l _)

/-- What reaches over a front still does with another rest behind the front, if its part behind the
front starts that rest too. -/
theorem prefix_append_of_suffix {w front l l' : List α} (h : w <+: front ++ l)
    (hl : ∀ w', w' <:+ w → w' <+: l → w' <+: l') : w <+: front ++ l' := by
  rcases List.prefix_or_prefix_of_prefix h (List.prefix_append front l) with hf | ⟨w', rfl⟩
  · exact hf.trans (List.prefix_append ..)
  · have hw := (List.prefix_append_right_inj front).mp h
    exact (List.prefix_append_right_inj front).mpr (hl w' (List.suffix_append ..) hw)

theorem infix_flatMap {β : Type} {w l : List α} (h : w <:+: l) (f : α → List β) :
    w.flatMap f <:+: l.flatMap f := by
  obtain ⟨s, t, rfl⟩ := h
  rw [List.flatMap_append, List.flatMap_append]
  exact List.infix_append ..

section
variable {mark : α} {w : List α} (hm : mark ∉ w)
include hm

theorem prefix_append_mark (l r : List α) : w <+: l ++ mark :: r ↔ w <+: l := by
  constructor
  · intro h
    rw [← List.append_nil l]
    refine prefix_append_of_suffix h fun w' hs hp => ?_
    have hn : w' = [] := eq_nil_of_prefix_cons (fun hw => hm (hs.mem hw)) hp
    exact hn ▸ List.nil_prefix
  · exact fun h => h.trans (List.prefix_append ..)

theorem infix_append_mark (l r : List α) :
    w <:+: l ++ mark :: r ↔ w <:+: l ∨ w <:+: r := by
  constructor
  · intro h
    rcases List.infix_append_iff.mp h with hl | hr | ⟨w₁, w₂, rfl, hs, hp⟩
    · exact Or.inl hl
    · rcases List.infix_cons_iff.mp hr with hp | hr
      · rw [eq_nil_of_prefix_cons hm hp]
        exact Or.inl List.nil_infix
      · exact Or.inr hr
    · rw [eq_nil_of_prefix_cons (fun hw => hm (List.mem_append_right _ hw)) hp, List.append_nil]
      exact Or.inl hs.isInfix
  · rintro (hl | hr)
    · exact hl.trans (List.prefix_append ..).isInfix
    · exact hr.trans (suffix_append_cons l mark r).isInfix

end

end

/-! ## Replacing -/

section
variable {token : Text} (other : Text)

theorem partsAround_ne_nil (token : Text) : ∀ (skip : Nat) (t : Text), partsAround token skip t ≠ []
  | 0, [] => by simp [partsAround]
  | _ + 1, [] => by simp [partsAround]
  | skip + 1, _ :: r => by rw [partsAround]; exact partsAround_ne_nil token skip r
  | 0, c :: r => by
    rw [partsAround]
    split
    · simp
    · exact fun h => partsAround_ne_nil token 0 r (List.modifyHead_eq_nil_iff.mp h)

theorem partsAround_skip (token : Text) : ∀ (skip : Nat) (t : Text),
    partsAround token skip t = partsAround token 0 (t.drop skip)
  | 0, _ => rfl
  | _ + 1, [] => rfl
  | skip + 1, _ :: r => by rw [partsAround, partsAround_skip token skip r]; rfl

theorem pieces_ne_nil (token t : Text) : pieces token t ≠ [] := by
  unfold pieces
  split
  · simp
  · exact partsAround_ne_nil token 0 t

section
variable (h : token ≠ [])
include h

theorem pieces_nil : pieces token [] = [[]] := by
  rw [pieces, if_neg h, partsAround]

theorem pieces_token_append (rest : Text) :
    pieces token (token ++ rest) = [] :: pieces token rest := by
  rw [pieces, if_neg h, pieces, if_neg h]
  cases token with
  | nil => exact absurd rfl h
  | cons p ps =>
    rw [List.cons_append, partsAround, if_pos (by simp), partsAround_skip]
    simp

theorem pieces_cons {c : Char} {r : Text} (hn : ¬ token <+: c :: r) :
    pieces token (c :: r) = (pieces token r).modifyHead (c :: ·) := by
  rw [pieces, if_neg h, pieces, if_neg h, partsAround, if_neg (by simpa using hn)]

theorem replace_nil : replace token other [] = [] := by
  rw [replace, pieces_nil h]
  exact List.intercalate_singleton

theorem replace_token_append (rest : Text) :
    replace token other (token ++ rest) = other ++ replace token other rest := by
  rw [replace, pieces_token_append h, List.intercalate_cons_of_ne_nil (pieces_ne_nil _ _)]
  rfl

theorem replace_cons {c : Char} {r : Text} (hn : ¬ token <+: c :: r) :
    replace token other (c :: r) = c :: replace token other r := by
  rw [replace, pieces_cons h hn]
  cases hp : pieces token r with
  | nil => exact absurd hp (pieces_ne_nil _ _)
  | cons part parts => rw [List.modifyHead_cons, List.intercalate_cons_cons_left, replace, hp]

end

theorem token_induction (h : token ≠ []) {motive : Text → Prop} (nil : motive [])
    (found : ∀ rest, motive rest → motive (token ++ rest))
    (cons : ∀ c r, ¬ token <+: c :: r → motive r → motive (c :: r)) : ∀ t, motive t
  | [] => nil
  | c :: r => by
    by_cases hp : token <+: c :: r
    · obtain ⟨rest, he⟩ := hp
      have shorter : rest.length < r.length + 1 := by
        have hpos := List.length_pos_iff.mpr h
        rw [← List.length_cons, ← he, List.length_append]
        omega
      rw [← he]
      exact found rest (token_induction h nil found cons rest)
    · exact cons c r hp (token_induction h nil found cons r)
termination_by t => t.length

theorem replace_self (token t : Text) : replace token token t = t := by
  by_cases h : token = []
  · subst h
    rw [replace, pieces, if_pos rfl, List.cons_append, List.intercalate_cons_of_ne_nil (by simp)]
    induction t with
    | nil => rfl
    | cons c r ih =>
      rw [List.map_cons, List.cons_append, List.intercalate_cons_of_ne_nil (by simp)]
      exact congrArg (c :: ·) ih
  · induction t using token_induction h with
    | nil => exact replace_nil token h
    | found rest ih => rw [replace_token_append token h, ih]
    | cons c r hn ih => rw [replace_cons token h hn, ih]

theorem pieces_of_not_occurs {t : Text} (h : occurs token t = false) : pieces token t = [t] := by
  have hn : ∀ {u : Text}, occurs token u = false → ¬ token <:+: u := fun ho hi => by
    rw [occurs_iff.mpr hi] at ho; cases ho
  have ht : token ≠ [] := fun e => hn h (e ▸ List.nil_infix)
  rw [pieces, if_neg ht]
  induction t with
  | nil => rfl
  | cons c r ih =>
    have hr : occurs token r = false := by
      rw [occurs, Bool.or_eq_false_iff] at h
      exact h.2
    rw [partsAround, if_neg (fun hp => hn h (List.isPrefixOf_iff_prefix.mp hp).isInfix), ih hr]
    rfl

theorem replace_of_not_occurs {t : Text} (h : occurs token t = false) :
    replace token other t = t := by
  rw [replace, pieces_of_not_occurs h]
  exact List.intercalate_singleton

/-! ### Characters that a token does not hold, or starts with -/

/-- No token reaches over a character that it does not hold. -/
theorem replace_append_mark (h : token ≠ []) {mark : Char} (hm : mark ∉ token) (t r : Text) :
    replace token other (t ++ mark :: r) = replace token other t ++ mark :: replace token other r := by
  induction t using token_induction h with
  | nil =>
    have hn : ¬ token <+: mark :: r := fun hp =>
      h (List.prefix_nil.mp ((prefix_append_mark hm [] r).mp hp))
    rw [List.nil_append, replace_cons other h hn, replace_nil other h, List.nil_append]
  | found rest ih =>
    rw [List.append_assoc, replace_token_append other h, replace_token_append other h, ih,
      List.append_assoc]
  | cons c t hn ih =>
    have hn' : ¬ token <+: c :: (t ++ mark :: r) := fun hp =>
      hn ((prefix_append_mark hm (c :: t) r).mp hp)
    rw [List.cons_append, replace_cons other h hn', replace_cons other h hn, ih, List.cons_append]

theorem replace_append_of_not_mem {first : Char} {more u : Text} (hu : first ∉ u) (r : Text) :
    replace (first :: more) other (u ++ r) = u ++ replace (first :: more) other r := by
  induction u with
  | nil => rfl
  | cons c u ih =>
    rw [List.mem_cons, not_or] at hu
    have hn : ¬ first :: more <+: c :: (u ++ r) := fun hp => hu.1 (List.cons_prefix_cons.mp hp).1
    rw [List.cons_append, replace_cons other (List.cons_ne_nil first more) hn, ih hu.2,
      List.cons_append]

end

/-! ## Cuts at a mark -/

section
variable {α : Type} [DecidableEq α] {mark : α}

theorem mark_induction (mark : α) {motive : List α → Prop} (free : ∀ l, mark ∉ l → motive l)
    (cut : ∀ l r, mark ∉ l → motive r → motive (l ++ mark :: r)) (l : List α) : motive l := by
  by_cases h : mark ∈ l
  · obtain ⟨l', r, he, hl⟩ := List.eq_append_cons_of_mem h
    have shorter : r.length < l.length := by rw [he, List.length_append, List.length_cons]; omega
    rw [he]
    exact cut l' r hl (mark_induction mark free cut r)
  · exact free l h
termination_by l.length

theorem cutBehind_free {l : List α} (h : mark ∉ l) :
    cutBehind mark l = if l = [] then [] else [l] := by
  induction l with
  | nil => rfl
  | cons a r ih =>
    rw [List.mem_cons, not_or] at h
    rw [cutBehind, if_neg (Ne.symm h.1), ih h.2]
    cases r <;> rfl

theorem cutBehind_cut {l : List α} (h : mark ∉ l) (r : List α) :
    cutBehind mark (l ++ mark :: r) = (l ++ [mark]) :: cutBehind mark r := by
  induction l with
  | nil => rw [List.nil_append, cutBehind, if_pos rfl]; rfl
  | cons a l ih =>
    rw [List.mem_cons, not_or] at h
    rw [List.cons_append, cutBehind, if_neg (Ne.symm h.1), ih h.2]
    rfl

theorem cutBehind_append {l : List α} (h : l = [] ∨ l.getLast? = some mark) (r : List α) :
    cutBehind mark (l ++ r) = cutBehind mark l ++ cutBehind mark r := by
  induction l using mark_induction mark with
  | free l hl =>
    rcases h with rfl | h
    · rfl
    · exact absurd (List.mem_of_getLast? h) hl
  | cut l l' hl ih =>
    have hr : l' = [] ∨ l'.getLast? = some mark := by
      cases l' with
      | nil => exact Or.inl rfl
      | cons a l' => exact Or.inr (by simpa using h)
    rw [List.append_assoc, List.cons_append, cutBehind_cut hl, cutBehind_cut hl, ih hr,
      List.cons_append]

theorem splitAt_free {l : List α} (h : mark ∉ l) : splitAt mark l = [l] := by
  induction l with
  | nil => rfl
  | cons a r ih =>
    rw [List.mem_cons, not_or] at h
    rw [splitAt, if_neg (Ne.symm h.1), ih h.2]
    rfl

theorem splitAt_cut {l : List α} (h : mark ∉ l) (r : List α) :
    splitAt mark (l ++ mark :: r) = l :: splitAt mark r := by
  induction l with
  | nil => rw [List.nil_append, splitAt, if_pos rfl]
  | cons a l ih =>
    rw [List.mem_cons, not_or] at h
    rw [List.cons_append, splitAt, if_neg (Ne.symm h.1), ih h.2]
    rfl

theorem splitAt_append_cut (l r : List α) :
    splitAt mark (l ++ mark :: r) = splitAt mark l ++ splitAt mark r := by
  induction l using mark_induction mark with
  | free l h => rw [splitAt_cut h, splitAt_free h]; rfl
  | cut l l' h ih => rw [List.append_assoc, List.cons_append, splitAt_cut h, splitAt_cut h, ih]; rfl

section
variable {l part : List α} (h : part ∈ splitAt mark l)
include h

theorem infix_of_mem_splitAt : part <:+: l := by
  induction l using mark_induction mark with
  | free l hl =>
    rw [splitAt_free hl, List.mem_singleton] at h
    exact h ▸ List.infix_rfl
  | cut l r hl ih =>
    rw [splitAt_cut hl, List.mem_cons] at h
    rcases h with rfl | h
    · exact (List.prefix_append ..).isInfix
    · exact (ih h).trans (suffix_append_cons l mark r).isInfix

theorem not_mem_of_mem_splitAt : mark ∉ part := by
  induction l using mark_induction mark with
  | free l hl =>
    rw [splitAt_free hl, List.mem_singleton] at h
    exact h ▸ hl
  | cut l r hl ih =>
    rw [splitAt_cut hl, List.mem_cons] at h
    rcases h with rfl | h
    · exact hl
    · exact ih h

end

theorem splitAt_ne_nil (mark : α) (l : List α) : splitAt mark l ≠ [] := by
  cases l with
  | nil => simp [splitAt]
  | cons a r =>
    rw [splitAt]
    split
    · simp
    · exact fun h => splitAt_ne_nil mark r (List.modifyHead_eq_nil_iff.mp h)

end

end LineCensus.Text
