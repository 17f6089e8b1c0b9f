import LineCensus.Proofs.Shrinking
import LineCensus.Proofs.TokenCuts
import Mathlib.Data.List.Infix

/-!
# Masks

Guarded tokens are hidden behind numbered masks one after the other, and masks are looked for in the
same order. A later token may stand in a mask, and two masks with a number between them hold a third
one. Where neither happens (`Legible`), the passes work on the characters between the tokens alone,
and no mask is left over (`strip_of_legible`).
-/

namespace LineCensus

theorem Text.decimal_injective {m n : Nat} (h : decimal m = decimal n) : m = n := by
  have hn := congrArg (fun digits => Nat.ofDigitChars 10 digits 0) h
  simpa [decimal] using hn

namespace Stripper

theorem frame_not_mem_decimal (i : Nat) : frame ∉ Text.decimal i :=
  fun h => absurd (Text.isDigit_of_mem_decimal h) (by decide)

theorem not_mem_mask {c : Char} (hf : c ≠ frame) (hd : c.isDigit = false) (i : Nat) :
    c ∉ mask i := by
  intro h
  rcases List.mem_cons.mp h with h | h
  · exact hf h
  rcases List.mem_append.mp h with h | h
  · rw [Text.isDigit_of_mem_decimal h] at hd; cases hd
  · exact hf (List.mem_singleton.mp h)

/-! ## Legible masks -/

/-- No token but the first holds the character that frames masks. No later token stands in the
number of an earlier one that is on the line, or is followed by such a number and by another token
that is no earlier. -/
structure Legible (guarded : List Text) (line : Text) : Prop where
  unframed : ∀ g ∈ guarded.zipIdx, 0 < g.2 → frame ∉ g.1
  unnumbered : ∀ g ∈ guarded.zipIdx, ∀ later ∈ guarded.zipIdx, g.2 < later.2 → g.1 <:+: line →
    ¬ later.1 <:+: Text.decimal g.2
  unjoined : ∀ g ∈ guarded.zipIdx, ∀ later ∈ guarded.zipIdx, ∀ next ∈ guarded.zipIdx,
    g.2 < later.2 → g.2 ≤ next.2 → ¬ later.1 ++ Text.decimal g.2 ++ next.1 <:+: line

instance (guarded : List Text) (line : Text) : Decidable (Legible guarded line) :=
  decidable_of_iff
    ((∀ g ∈ guarded.zipIdx, 0 < g.2 → frame ∉ g.1) ∧
      (∀ g ∈ guarded.zipIdx, ∀ later ∈ guarded.zipIdx, g.2 < later.2 → g.1 <:+: line →
        ¬ later.1 <:+: Text.decimal g.2) ∧
      ∀ g ∈ guarded.zipIdx, ∀ later ∈ guarded.zipIdx, ∀ next ∈ guarded.zipIdx,
        g.2 < later.2 → g.2 ≤ next.2 → ¬ later.1 ++ Text.decimal g.2 ++ next.1 <:+: line)
    ⟨fun h => ⟨h.1, h.2.1, h.2.2⟩, fun h => ⟨h.unframed, h.unnumbered, h.unjoined⟩⟩

theorem legible_of_length_le_one {guarded : List Text} (h : guarded.length ≤ 1) (line : Text) :
    Legible guarded line := by
  have hz : ∀ g ∈ guarded.zipIdx, g.2 = 0 := fun g hg => by
    have := List.snd_lt_of_mem_zipIdx hg
    omega
  refine ⟨fun g hg hp => ?_, fun g _ later hl hlt => ?_, fun g _ later hl _ _ hlt => ?_⟩
  · rw [hz g hg] at hp; cases hp
  · rw [hz later hl] at hlt; cases hlt
  · rw [hz later hl] at hlt; cases hlt

section
variable {guarded : List Text} {line : Text}

theorem tokenAt_mem_zipIdx {i : Nat} (h : i < guarded.length) :
    (tokenAt guarded i, i) ∈ guarded.zipIdx := by
  rw [List.mk_mem_zipIdx_iff_getElem?, tokenAt, List.getElem?_eq_getElem h]
  rfl

theorem cutBelow_cut (guarded : List Text) (line : Text) :
    CutBelow guarded line guarded.length (cut guarded line) :=
  foldl_zipIdx_rel (motive := fun n k (_ : Unit) => CutBelow guarded line n k) (g := fun u _ => u)
    (c := ()) guarded CutBelow.whole fun _ _ hi _ _ hk => hk.cutAt hi

theorem hide_eq_write {s : Stripper} (h : Legible s.guarded line) :
    s.hide line = write mask (cut s.guarded line).symbols := by
  refine (foldl_zipIdx_rel
    (motive := fun n t k => t = write mask k.symbols ∧ CutBelow s.guarded line n k)
    s.guarded ⟨(write_chars _ line).symm, CutBelow.whole⟩ ?_).1
  rintro token i hi _ k ⟨rfl, hk⟩
  refine ⟨Cut.replace_write i fun m hm => ?_, hk.cutAt hi⟩
  have hlt := hk.below m hm
  have hmem : (token, i) ∈ s.guarded.zipIdx := List.mk_mem_zipIdx_iff_getElem?.mpr hi
  have hlen := List.snd_lt_of_mem_zipIdx hmem
  refine ⟨h.unframed _ hmem (Nat.lt_of_le_of_lt (Nat.zero_le m) hlt), ?_⟩
  have hn := h.unnumbered _ (tokenAt_mem_zipIdx (Nat.lt_trans hlt hlen)) _ hmem hlt
    (hk.infix_line hm)
  exact Bool.eq_false_iff.mpr (mt Text.occurs_iff.mp hn)

end

/-! ## The passes -/

def passes (literals : List Literal) (symbols : List Symbol) : List Symbol :=
  literals.foldl (fun symbols l => Literal.collapse (.char l.delimiter) (.char '\n')
    (.char Literal.placeholder) symbols) symbols

theorem passes_eq_collapseAll (literals : List Literal) (symbols : List Symbol) :
    passes literals symbols = Literal.collapseAll (fun l => .char l.delimiter) (.char '\n')
      (.char Literal.placeholder) literals symbols := rfl

theorem spelling_mask (l : Literal) :
    Literal.Spelling (Symbol.spell mask) (.char l.delimiter) (.char '\n') l.delimiter '\n' where
  spell_delimiter := rfl
  spell_stop := rfl
  ne := l.delimiter_ne_newline
  other a hd hs := by
    cases a with
    | token i =>
      exact ⟨not_mem_mask (by cases l <;> decide) (by cases l <;> decide) i,
        not_mem_mask (by decide) (by decide) i⟩
    | char c =>
      refine ⟨fun h => hd ?_, fun h => hs ?_⟩
      · rw [List.mem_singleton.mp h]
      · rw [List.mem_singleton.mp h]

theorem shrinkAll_write (s : Stripper) (symbols : List Symbol) :
    s.shrinkAll (write mask symbols) = write mask (passes s.literals symbols) := by
  unfold shrinkAll passes
  induction s.literals generalizing symbols with
  | nil => rfl
  | cons l ls ih =>
    have hx : (Symbol.char Literal.placeholder).spell mask = [Literal.placeholder] := rfl
    rw [List.foldl_cons, List.foldl_cons, Literal.shrink_eq_collapse, ← ih, write,
      Literal.collapse_flatMap (spelling_mask l) hx]
    rfl

section
variable {literals : List Literal} {symbols : List Symbol}

theorem mem_passes {a : Symbol} (h : a ∈ passes literals symbols) :
    a ∈ symbols ∨ a = .char Literal.placeholder := by
  rw [passes_eq_collapseAll] at h
  exact Literal.mem_collapseAll h

theorem infix_flatMap_of_passes {β : Type} (spell : Symbol → List β) {x : β}
    (hx : spell (.char Literal.placeholder) = [x]) {w : List β} (hw : x ∉ w)
    (h : w <:+: (passes literals symbols).flatMap spell) : w <:+: symbols.flatMap spell := by
  unfold passes at h
  induction literals generalizing symbols with
  | nil => exact h
  | cons l ls ih => exact Literal.infix_of_infix_flatMap_collapse spell hx hw (ih h)

theorem infix_of_infix_passes {w : List Symbol} (hx : .char Literal.placeholder ∉ w)
    (h : w <:+: passes literals symbols) : w <:+: symbols := by
  rw [← List.flatMap_singleton' (passes literals symbols)] at h
  rw [← List.flatMap_singleton' symbols]
  exact infix_flatMap_of_passes (fun a => [a]) rfl hx h

theorem passes_of_not_mem (h : ∀ l ∈ literals, .char l.delimiter ∉ symbols) :
    passes literals symbols = symbols := by
  unfold passes
  induction literals with
  | nil => rfl
  | cons l ls ih =>
    rw [List.foldl_cons, Literal.collapse_of_not_mem (h l (List.mem_cons_self ..)),
      ih fun k hk => h k (List.mem_cons_of_mem _ hk)]

end

/-! ## Masks are read back -/

/-- The first `n` tokens as they are, and masks for the others. -/
def revealed (guarded : List Text) (n i : Nat) : Text :=
  if i < n then tokenAt guarded i else mask i

theorem prefix_of_frame_behind {u : Text} (hu : frame ∉ u) {w t : Text}
    (h : w ++ [frame] <+: u ++ t) : ∃ w', w = u ++ w' ∧ w' ++ [frame] <+: t := by
  induction u generalizing w with
  | nil => exact ⟨w, rfl, h⟩
  | cons c u ih =>
    rw [List.mem_cons, not_or] at hu
    cases w with
    | nil => exact absurd (List.cons_prefix_cons.mp h).1 hu.1
    | cons b w =>
      obtain ⟨rfl, hw⟩ := List.cons_prefix_cons.mp h
      obtain ⟨w', rfl, hp⟩ := ih hu.2 hw
      exact ⟨w', rfl, hp⟩

theorem eq_nil_of_frame_first {w t : Text} (hw : frame ∉ w) (h : w ++ [frame] <+: frame :: t) :
    w = [] :=
  Text.eq_nil_of_prefix_cons hw ((List.prefix_append ..).trans h)

theorem replace_mask_append (i : Nat) (other : Text) {u : Text} (hu : frame ∉ u) (r : Text) :
    Text.replace (mask i) other (u ++ r) = u ++ Text.replace (mask i) other r :=
  Text.replace_append_of_not_mem other hu r

theorem not_mask_prefix_mask {i m : Nat} (h : i ≠ m) (t : Text) :
    ¬ mask i <+: frame :: (Text.decimal m ++ frame :: t) := by
  intro hp
  obtain ⟨w, he, hw⟩ :=
    prefix_of_frame_behind (frame_not_mem_decimal m) (List.cons_prefix_cons.mp hp).2
  have hn : frame ∉ w := fun hm =>
    frame_not_mem_decimal i (he ▸ List.mem_append_right _ hm)
  rw [eq_nil_of_frame_first hn hw, List.append_nil] at he
  exact h (Text.decimal_injective he)

section
variable {guarded : List Text} {symbols : List Symbol}

theorem spell_revealed_cases (guarded : List Text) (i : Nat) (a : Symbol) :
    (a.spell (revealed guarded i) = a.spell (tokenAt guarded) ∧
      a.spell (revealed guarded (i + 1)) = a.spell (tokenAt guarded)) ∨
    a = .token i ∨ ∃ m, a = .token m ∧ i < m := by
  cases a with
  | char c => exact Or.inl ⟨rfl, rfl⟩
  | token m =>
    rcases Nat.lt_trichotomy m i with h | rfl | h
    · exact Or.inl ⟨if_pos h, if_pos (Nat.lt_succ_of_lt h)⟩
    · exact Or.inr (Or.inl rfl)
    · exact Or.inr (Or.inr ⟨m, rfl, h⟩)

variable (hf : ∀ a ∈ symbols, frame ∉ a.spell (tokenAt guarded))
include hf

/-- A frame comes from a mask, and what comes before the first one is a text of its own. -/
theorem exists_gap {i : Nat} {w : Text} (hw : frame ∉ w)
    (h : w ++ [frame] <+: write (revealed guarded i) symbols) :
    ∃ gap next rest, symbols = gap ++ .token next :: rest ∧
      write (tokenAt guarded) gap = w ∧ i ≤ next := by
  induction symbols generalizing w with
  | nil => simp [write] at h
  | cons a r ih =>
    rw [write_cons] at h
    have masked : ∀ m, a = .token m → i ≤ m → ∃ gap next rest,
        a :: r = gap ++ .token next :: rest ∧ write (tokenAt guarded) gap = w ∧ i ≤ next := by
      rintro m rfl hm
      rw [Symbol.spell, revealed, if_neg (Nat.not_lt.mpr hm), mask_append] at h
      exact ⟨[], m, r, rfl, (eq_nil_of_frame_first hw h).symm, hm⟩
    rcases spell_revealed_cases guarded i a with ⟨ha, -⟩ | ha | ⟨m, ha, hm⟩
    · rw [ha] at h
      obtain ⟨w', rfl, hp⟩ := prefix_of_frame_behind (hf a (List.mem_cons_self ..)) h
      rw [List.mem_append, not_or] at hw
      obtain ⟨gap, next, rest, rfl, rfl, hn⟩ :=
        ih (fun b hb => hf b (List.mem_cons_of_mem _ hb)) hw.2 hp
      exact ⟨a :: gap, next, rest, rfl, write_cons .., hn⟩
    · exact masked i ha (Nat.le_refl i)
    · exact masked m ha (Nat.le_of_lt hm)

theorem replace_mask_write {i : Nat}
    (hj : ∀ m rest, .token m :: rest <:+ symbols → i < m →
      ¬ Text.decimal i ++ [frame] <+: write (revealed guarded i) rest) :
    Text.replace (mask i) (tokenAt guarded i) (write (revealed guarded i) symbols) =
      write (revealed guarded (i + 1)) symbols := by
  induction symbols with
  | nil => exact Text.replace_nil _ (mask_ne_nil i)
  | cons a r ih =>
    have hr := ih (fun b hb => hf b (List.mem_cons_of_mem _ hb))
      fun m rest hs => hj m rest (hs.trans (List.suffix_cons ..))
    rw [write_cons, write_cons, ← hr]
    rcases spell_revealed_cases guarded i a with ⟨ha, ha'⟩ | rfl | ⟨m, rfl, hm⟩
    · rw [ha, ha']
      exact replace_mask_append i _ (hf a (List.mem_cons_self ..)) _
    · rw [Symbol.spell, revealed, if_neg (Nat.lt_irrefl i), Symbol.spell, revealed,
        if_pos (Nat.lt_succ_self i), Text.replace_token_append _ (mask_ne_nil i)]
    · have hfirst := not_mask_prefix_mask (Nat.ne_of_lt hm) (write (revealed guarded i) r)
      have hlast : ¬ mask i <+: frame :: write (revealed guarded i) r := fun hp =>
        hj m r List.suffix_rfl hm (List.cons_prefix_cons.mp hp).2
      rw [Symbol.spell, revealed, if_neg (Nat.not_lt.mpr (Nat.le_of_lt hm)), Symbol.spell, revealed,
        if_neg (Nat.not_lt.mpr hm), mask_append, mask_append,
        Text.replace_cons _ (mask_ne_nil i) hfirst,
        replace_mask_append i _ (frame_not_mem_decimal m),
        Text.replace_cons _ (mask_ne_nil i) hlast]

end

theorem reveal_write {s : Stripper} {symbols : List Symbol}
    (hb : ∀ m, .token m ∈ symbols → m < s.guarded.length)
    (hf : ∀ a ∈ symbols, frame ∉ a.spell (tokenAt s.guarded))
    (hj : ∀ i < s.guarded.length, ∀ m rest, .token m :: rest <:+ symbols → i < m →
      ¬ Text.decimal i ++ [frame] <+: write (revealed s.guarded i) rest) :
    s.reveal (write mask symbols) = write (tokenAt s.guarded) symbols := by
  have hstart : write mask symbols = write (revealed s.guarded 0) symbols :=
    write_congr fun m _ => (if_neg (Nat.not_lt_zero m)).symm
  have hend : write (revealed s.guarded s.guarded.length) symbols =
      write (tokenAt s.guarded) symbols :=
    write_congr fun m hm => if_pos (hb m hm)
  rw [← hend, hstart]
  refine foldl_zipIdx_rel (motive := fun n t (_ : Unit) => t = write (revealed s.guarded n) symbols)
    (g := fun u _ => u) (c := ()) s.guarded rfl ?_
  rintro token i hi _ _ rfl
  have hlt : i < s.guarded.length := (List.getElem?_eq_some_iff.mp hi).1
  rw [← tokenAt_of_getElem? hi]
  exact replace_mask_write hf (hj i hlt)

/-! ## Stripping -/

section
variable {s : Stripper} {line : Text}

def bare (s : Stripper) (line : Text) : List Symbol :=
  passes s.literals (cut s.guarded line).symbols

theorem token_mem_bare {m : Nat} (h : .token m ∈ s.bare line) :
    .token m ∈ (cut s.guarded line).symbols :=
  (mem_passes h).resolve_right (by simp)

theorem infix_line_of_mem_bare {a : Symbol} (h : a ∈ s.bare line) :
    a.spell (tokenAt s.guarded) <:+: line ∨ a = .char Literal.placeholder := by
  refine (mem_passes h).imp_left fun hm => ?_
  have hw : a.spell (tokenAt s.guarded) <:+: write (tokenAt s.guarded) (cut s.guarded line).symbols :=
    infix_write_of_mem hm
  rwa [(cutBelow_cut s.guarded line).written] at hw

theorem frame_not_mem_bare (hf : frame ∉ line) :
    ∀ a ∈ s.bare line, frame ∉ a.spell (tokenAt s.guarded) := by
  intro a ha hm
  rcases infix_line_of_mem_bare ha with hi | rfl
  · exact hf (hi.mem hm)
  · exact absurd (List.mem_singleton.mp hm) (by decide)

theorem not_gap_of_legible (hf : frame ∉ line) (h : Legible s.guarded line) {i m : Nat}
    {rest : List Symbol} (hs : .token m :: rest <:+ s.bare line) (hm : i < m) :
    ¬ Text.decimal i ++ [frame] <+: write (revealed s.guarded i) rest := by
  intro hp
  have hrest : ∀ a ∈ rest, frame ∉ a.spell (tokenAt s.guarded) := fun a ha =>
    frame_not_mem_bare hf a (hs.mem (List.mem_cons_of_mem _ ha))
  obtain ⟨gap, next, rest', rfl, hg, hn⟩ := exists_gap hrest (frame_not_mem_decimal i) hp
  have hi : .token m :: gap ++ [.token next] <:+: s.bare line := by
    refine List.IsInfix.trans ⟨[], rest', ?_⟩ hs.isInfix
    simp
  have hx : .char Literal.placeholder ∉ (.token m :: gap ++ [.token next] : List Symbol) := by
    intro hx
    have hgap : .char Literal.placeholder ∈ gap := by simpa using hx
    have hd : Literal.placeholder ∈ Text.decimal i := by
      rw [← hg]
      exact (infix_write_of_mem hgap).mem (List.mem_singleton_self _)
    exact absurd (Text.isDigit_of_mem_decimal hd) (by decide)
  have hline : tokenAt s.guarded m ++ Text.decimal i ++ tokenAt s.guarded next <:+: line := by
    have hw : write (tokenAt s.guarded) (.token m :: gap ++ [.token next]) <:+: line := by
      rw [← (cutBelow_cut s.guarded line).written]
      exact infix_write (infix_of_infix_passes hx hi)
    rw [write_append, write_cons, hg, write_cons, write, List.flatMap_nil, List.append_nil] at hw
    exact hw
  have hlen : ∀ k, .token k ∈ s.bare line → k < s.guarded.length := fun k hk =>
    (cutBelow_cut s.guarded line).below k (token_mem_bare hk)
  have hmlen := hlen m (hi.mem (by simp))
  have hnlen := hlen next (hi.mem (by simp))
  exact h.unjoined _ (tokenAt_mem_zipIdx (Nat.lt_trans hm hmlen)) _ (tokenAt_mem_zipIdx hmlen) _
    (tokenAt_mem_zipIdx hnlen) hm hn hline

theorem cut_of_no_token {guarded : List Text}
    (h : ∀ token ∈ guarded, Text.occurs token line = false) : cut guarded line = .whole line := by
  refine foldl_zipIdx_rel (motive := fun _ k (_ : Unit) => k = Cut.whole line) (g := fun u _ => u)
    (c := ()) guarded rfl ?_
  rintro token i hi _ _ rfl
  rw [Cut.cutAt, Text.pieces_of_not_occurs (h token (List.mem_of_getElem? hi))]
  rfl

theorem strip_eq_write_bare (hf : frame ∉ line) (h : Legible s.guarded line) :
    s.strip line = write (tokenAt s.guarded) (s.bare line) := by
  by_cases ho : ∀ token ∈ s.guarded, Text.occurs token line = false
  · have hm : write mask (s.bare line) = write (tokenAt s.guarded) (s.bare line) := by
      refine write_congr fun m hm => ?_
      have hc := token_mem_bare hm
      rw [cut_of_no_token ho] at hc
      obtain ⟨_, _, ⟨⟩⟩ := List.mem_map.mp hc
    rw [strip_of_no_token ho, ← hm, bare, ← shrinkAll_write, cut_of_no_token ho, Cut.symbols,
      write_chars]
  · have hmasks : s.masks line = true := by
      simpa [masks, hf] using ho
    unfold strip
    split
    · next hl =>
      rw [bare, List.isEmpty_iff.mp hl]
      exact (cutBelow_cut s.guarded line).written.symm
    · rw [hide_eq_write h, shrinkAll_write]
      exact reveal_write (fun m hm => (cutBelow_cut s.guarded line).below m (token_mem_bare hm))
        (frame_not_mem_bare hf) fun _ _ _ _ hs hm => not_gap_of_legible hf h hs hm

/-- With legible masks none is left over, and a line that has no delimiter outside its tokens stays
as it is. -/
theorem strip_of_legible (s : Stripper) (line : Text) (hf : frame ∉ line)
    (h : Legible s.guarded line) :
    frame ∉ s.strip line ∧
      ((∀ part ∈ parts s.guarded line, ∀ l ∈ s.literals, l.delimiter ∉ part) →
        s.strip line = line) := by
  rw [strip_eq_write_bare hf h]
  constructor
  · intro hm
    obtain ⟨a, ha, hs⟩ := List.mem_flatMap.mp hm
    exact frame_not_mem_bare hf a ha hs
  · intro hp
    have hd : ∀ l ∈ s.literals, .char l.delimiter ∉ (cut s.guarded line).symbols := by
      intro l hl hc
      obtain ⟨part, hpart, hmem⟩ := Cut.char_mem_symbols hc
      rw [parts_cut] at hpart
      exact hp part hpart l hl hmem
    rw [bare, passes_of_not_mem hd, (cutBelow_cut s.guarded line).written]

end

def bothTripleQuotes : Stripper :=
  ⟨[.single, .double], ["\"\"\"".toList, "'''".toList]⟩

theorem strip_of_legible_sample :
    let line := "\"\"\"0'''x1\"\"\"".toList
    frame ∉ line ∧ Legible bothTripleQuotes.guarded line ∧
      (∀ part ∈ parts bothTripleQuotes.guarded line, ∀ l ∈ bothTripleQuotes.literals,
        l.delimiter ∉ part) ∧
      frame ∉ bothTripleQuotes.strip line ∧ bothTripleQuotes.strip line = line := by
  intro line
  have hf : frame ∉ line := by decide
  have hl : Legible bothTripleQuotes.guarded line := by decide +kernel
  have hp : ∀ part ∈ parts bothTripleQuotes.guarded line, ∀ l ∈ bothTripleQuotes.literals,
      l.delimiter ∉ part := by decide
  have h := strip_of_legible bothTripleQuotes line hf hl
  exact ⟨hf, hl, hp, h.1, h.2 hp⟩

/-- Two masks of the second token with a zero between them hold the mask of the first one. -/
theorem strip_leaks_mask :
    let line := "'''0'''".toList
    frame ∉ line ∧
      (∀ part ∈ parts bothTripleQuotes.guarded line, ∀ l ∈ bothTripleQuotes.literals,
        l.delimiter ∉ part) ∧
      frame ∈ bothTripleQuotes.strip line ∧ bothTripleQuotes.strip line ≠ line := by
  decide +kernel

end Stripper

end LineCensus
