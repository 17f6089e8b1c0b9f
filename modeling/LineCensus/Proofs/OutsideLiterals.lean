import LineCensus.Proofs.BeginEndBlocks
import LineCensus.Proofs.BlankEnds
import Mathlib.Algebra.Ring.Parity

/-!
# Characters outside literals

Literals are paired from the left, so a character is outside them exactly if an even number of
delimiters comes before it or none behind it (`mem_shrink_iff`). This decides the lines of Basic, where
a `'` outside literals begins a comment, on the text as it is written (`classify_eq_kindOf`).
-/

namespace LineCensus

namespace Literal

section
variable {α : Type} [DecidableEq α]

/-- Some `a` has an even number of `d` before it or none behind it. -/
def Unpaired (d a : α) (l : List α) : Prop :=
  ∃ before after, l = before ++ a :: after ∧ (Even (before.count d) ∨ d ∉ after)

instance (d a : α) (l : List α) : Decidable (Unpaired d a l) :=
  decidable_of_iff (∃ i : Fin l.length, l[i] = a ∧
      (Even ((l.take i).count d) ∨ d ∉ l.drop (i + 1))) <| by
    constructor
    · rintro ⟨i, ha, h⟩
      refine ⟨l.take i, l.drop (i + 1), ?_, h⟩
      rw [← ha, Fin.getElem_fin, ← List.drop_eq_getElem_cons i.isLt, List.take_append_drop]
    · rintro ⟨before, after, rfl, h⟩
      refine ⟨⟨before.length, by simp⟩, by simp, ?_⟩
      simpa using h

variable {d a : α}

theorem Unpaired.mem {l : List α} : Unpaired d a l → a ∈ l := by
  rintro ⟨before, after, rfl, -⟩
  exact List.mem_append_right _ (List.mem_cons_self ..)

theorem unpaired_append_of_mem (front : List α) {l : List α} (h : d ∉ l) (ha : a ∈ l) :
    Unpaired d a (front ++ l) := by
  obtain ⟨before, after, rfl⟩ := List.append_of_mem ha
  have hd : d ∉ after := fun hd => h (List.mem_append_right _ (List.mem_cons_of_mem _ hd))
  exact ⟨front ++ before, after, (List.append_assoc ..).symm, Or.inr hd⟩

theorem unpaired_iff_of_not_mem {l : List α} (h : d ∉ l) : Unpaired d a l ↔ a ∈ l :=
  ⟨Unpaired.mem, unpaired_append_of_mem [] h⟩

theorem unpaired_cons_of_ne {b : α} (hb : b ≠ d) {l : List α} :
    Unpaired d a (b :: l) ↔ a = b ∨ Unpaired d a l := by
  constructor
  · rintro ⟨before, after, he, h⟩
    cases before with
    | nil => exact Or.inl (List.cons.inj he).1.symm
    | cons c before =>
      obtain ⟨rfl, rfl⟩ := List.cons.inj he
      rw [List.count_cons_of_ne hb] at h
      exact Or.inr ⟨before, after, rfl, h⟩
  · rintro (rfl | ⟨before, after, rfl, h⟩)
    · exact ⟨[], l, rfl, Or.inl (by simp)⟩
    · exact ⟨b :: before, after, rfl, by rwa [List.count_cons_of_ne hb]⟩

theorem unpaired_lone (ha : a ≠ d) {l : List α} (h : d ∉ l) : Unpaired d a (d :: l) ↔ a ∈ l := by
  constructor
  · intro hp
    exact (List.mem_cons.mp hp.mem).resolve_left ha
  · exact unpaired_append_of_mem [d] h

theorem unpaired_closed (ha : a ≠ d) {body rest : List α} (h : d ∉ body) :
    Unpaired d a (d :: (body ++ d :: rest)) ↔ Unpaired d a rest := by
  have hb : body.count d = 0 := List.count_eq_zero.mpr h
  constructor
  · rintro ⟨before, after, he, hp⟩
    cases before with
    | nil => exact absurd (List.cons.inj he).1.symm ha
    | cons c before =>
      obtain ⟨rfl, hr⟩ := List.cons.inj he
      rcases List.append_eq_append_iff.mp hr with ⟨more, rfl, hm⟩ | ⟨more, rfl, hm⟩
      · cases more with
        | nil => exact absurd (List.cons.inj hm).1.symm ha
        | cons c more =>
          obtain ⟨rfl, rfl⟩ := List.cons.inj hm
          refine ⟨more, after, rfl, ?_⟩
          simpa [List.count_append, hb, Nat.even_add_one] using hp
      · cases more with
        | nil => exact absurd (List.cons.inj hm).1 ha
        | cons c more =>
          obtain ⟨rfl, rfl⟩ := List.cons.inj hm
          have hc : before.count d = 0 := by
            rw [List.count_append] at hb
            omega
          simp [hc] at hp
  · rintro ⟨before, after, rfl, hp⟩
    refine ⟨d :: (body ++ d :: before), after, by simp, ?_⟩
    simpa [List.count_append, hb, Nat.even_add_one] using hp

section
variable {stop : α}

theorem mem_collapse_iff {x : α} (ha : a ≠ d) (hx : a ≠ x) {l : List α} (hs : stop ∉ l) :
    a ∈ collapse d stop x l ↔ Unpaired d a l := by
  fun_induction collapse d stop x l with
  | case1 => rw [unpaired_iff_of_not_mem List.not_mem_nil]
  | case2 r rest h _ ih =>
    rw [List.mem_cons, not_or] at hs
    obtain ⟨body, hd, -, rfl⟩ := exists_body_of_pastNext? h
    have hrest : stop ∉ rest := fun hm =>
      hs.2 (List.mem_append_right _ (List.mem_cons_of_mem _ hm))
    rw [List.mem_cons, unpaired_closed ha hd, ih hrest]
    exact or_iff_right hx
  | case3 r h ih =>
    rw [List.mem_cons, not_or] at hs
    have hd := not_mem_of_pastNext?_none hs.2 h
    rw [List.mem_cons, unpaired_lone ha hd, ih hs.2, unpaired_iff_of_not_mem hd]
    exact or_iff_right ha
  | case4 b r hb ih =>
    rw [List.mem_cons, not_or] at hs
    rw [List.mem_cons, unpaired_cons_of_ne hb, ih hs.2]

end

end

theorem mem_shrink_iff {d c : Char} (hc : c ≠ d) (hx : c ≠ placeholder) {t : Text}
    (hn : '\n' ∉ t) : c ∈ shrink d t ↔ Unpaired d c t := by
  rw [shrink_eq_collapse, mem_collapse_iff hc hx hn]

theorem unindented_shrink {d : Char} (hd : isBlank d = false) (t : Text) :
    Text.unindented (shrink d t) = shrink d (Text.unindented t) := by
  induction t with
  | nil => rfl
  | cons c r ih =>
    cases hc : isBlank c with
    | true =>
      have hcd : c ≠ d := by rintro rfl; rw [hc] at hd; cases hd
      rw [shrink_cons_of_ne hcd, Text.unindented_cons_of_blank hc, ih,
        Text.unindented_cons_of_blank hc]
    | false =>
      rw [Text.unindented_cons_of_not_blank hc]
      rcases shrink_cons (d := d) c r with ⟨r', hr⟩ | ⟨-, r', hr⟩
      · rw [hr, Text.unindented_cons_of_not_blank hc]
      · rw [hr, Text.unindented_cons_of_not_blank isBlank_placeholder]

end Literal

namespace Rules.Basic

/-! ## Lines as they are written -/

/-- The line starts, after blanks, with `'` or with `rem` as a word, in small or capital letters. -/
def StartsComment (line : Text) : Prop :=
  (Text.unindented line).head? = some '\'' ∨
    ∃ word, word.map Char.toLower = "rem".toList ∧ Ruby.IsWordLine word (Text.unindented line)

theorem onlyComment_iff {line : Text} : basic.onlyComment line = true ↔ StartsComment line := by
  have hq : startsWith ['\''] (Text.unindented line) = true ↔
      (Text.unindented line).head? = some '\'' := by
    cases Text.unindented line with
    | nil => decide
    | cons c r => simpa [startsWith, Text.after?] using eq_comm
  have hr : isRemark (Text.unindented line) = true ↔ ∃ word,
      word.map Char.toLower = "rem".toList ∧ Ruby.IsWordLine word (Text.unindented line) := by
    rw [isRemark_iff]
    exact exists_congr fun word => and_congr_right fun _ => Ruby.startsWithWord_iff
  rw [StartsComment, ← hq, ← hr, ← Bool.or_eq_true]
  rfl

instance (line : Text) : Decidable (StartsComment line) :=
  decidable_of_iff _ onlyComment_iff

def kindOf (line : Text) : LineKind :=
  if Text.blank line then .blank
  else if StartsComment line then .comment
  else if Literal.Unpaired '"' '\'' line then .mixed
  else .code

theorem isRemark_shrink (t : Text) : isRemark (Literal.shrink '"' t) = isRemark t := by
  rw [Bool.eq_iff_iff, isRemark_iff, isRemark_iff]
  refine exists_congr fun word => and_congr_right fun hl => ?_
  have hd : '"' ∉ word := fun hm => absurd (toLower_mem_of_mem hl hm) (by decide)
  have hx : Literal.placeholder ∉ word := fun hm => absurd (toLower_mem_of_mem hl hm) (by decide)
  rw [Literal.startsWithWord_shrink hd (by decide) hx]

theorem onlyComment_shrink (t : Text) :
    basic.onlyComment (Literal.shrink '"' t) = basic.onlyComment t := by
  have hq : startsWith ['\''] (Literal.shrink '"' (Text.unindented t)) =
      startsWith ['\''] (Text.unindented t) := by
    rw [startsWith, Literal.after?_shrink (by decide) (by decide), Option.isSome_map, startsWith]
  simp only [basic, Literal.unindented_shrink (by decide : isBlank '"' = false), hq,
    isRemark_shrink]

/-- A line outside a block counts as its text says: no quote has to be paired or removed to see it. -/
theorem classify_eq_kindOf (policy : BlankInBlock) {line : Text} (hn : '\n' ∉ line) :
    basic.classify policy false line = (kindOf line, false) := by
  have hk : basic.classify policy false line =
      (basic.plainKind (Literal.shrink '"' line), false) := by
    unfold classify
    rw [Stripper.strip_of_unguarded rfl]
    rfl
  have hs : basic.someComment (Literal.shrink '"' line) = true ↔
      Literal.Unpaired '"' '\'' line := by
    rw [← Literal.mem_shrink_iff (by decide) (by decide) hn]
    exact List.contains_iff_mem
  rw [hk, plainKind, kindOf, Literal.blank_shrink (by decide), onlyComment_shrink]
  simp only [hs, onlyComment_iff]

theorem classify_eq_kindOf_sample :
    let line := "remark = \"it's\"\"'\" + \"' x".toList
    '\n' ∉ line ∧ basic.classify .blank false line = (.mixed, false) := by
  intro line
  have hn : '\n' ∉ line := by decide
  exact ⟨hn, (classify_eq_kindOf .blank hn).trans (by decide)⟩

end Rules.Basic

end LineCensus
