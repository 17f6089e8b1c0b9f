import LineCensus.Line
import LineCensus.Proofs.BraceScan
import LineCensus.Proofs.FrontsAndTails
import LineCensus.Proofs.RunCounts

/-!
# Blank lines

Delimiters, placeholders, guarded tokens and masks are not blank, so a line is blank with its literals
shrunk exactly if it was before (`blank_strip`). Markers are not blank either: a blank line never
begins or ends a block, and the policy decides on nothing but what it counts as in one
(`classify_inside_of_blank`, `classify_policy_congr`). So the line as it is written says whether it
counts as blank (`classify_eq_blank_iff`), and over a run the policy moves the blank lines of blocks
from one column to the other (`feedAll?_policies`).
-/

namespace LineCensus

/-! ## Stripping -/

namespace Text

theorem blank_cons (c : Char) (r : Text) : blank (c :: r) = (isBlank c && blank r) :=
  List.all_cons

theorem blank_append (s t : Text) : blank (s ++ t) = (blank s && blank t) :=
  List.all_append

theorem ne_nil_of_not_blank {t : Text} (h : blank t = false) : t ≠ [] := by
  intro hn
  rw [hn] at h
  cases h

theorem blank_replace {token other : Text} (ht : blank token = false) (ho : blank other = false)
    (t : Text) : blank (replace token other t) = blank t := by
  have hn := ne_nil_of_not_blank ht
  induction t using token_induction hn with
  | nil => rw [replace_nil other hn]
  | found rest _ =>
    rw [replace_token_append other hn, blank_append, blank_append, ht, ho, Bool.false_and,
      Bool.false_and]
  | cons c r hp ih => rw [replace_cons other hn hp, blank_cons, blank_cons, ih]

end Text

namespace Literal

theorem isBlank_delimiter (l : Literal) : isBlank l.delimiter = false := by
  cases l <;> decide

theorem isBlank_placeholder : isBlank placeholder = false := by decide

theorem blank_shrink {d : Char} (hd : isBlank d = false) (t : Text) :
    Text.blank (shrink d t) = Text.blank t := by
  rw [shrink_eq_collapse]
  fun_induction collapse d '\n' placeholder t with
  | case1 => rfl
  | case2 r rest h _ _ =>
    rw [Text.blank_cons, Text.blank_cons, isBlank_placeholder, hd, Bool.false_and, Bool.false_and]
  | case3 r h ih => rw [Text.blank_cons, Text.blank_cons, ih]
  | case4 c r hc ih => rw [Text.blank_cons, Text.blank_cons, ih]

end Literal

namespace Stripper

theorem blank_mask (i : Nat) : Text.blank (mask i) = false :=
  Text.blank_eq_false_of_mem (List.mem_cons_self ..) (by decide : isBlank frame = false)

theorem blank_shrinkAll (s : Stripper) (t : Text) :
    Text.blank (s.shrinkAll t) = Text.blank t := by
  unfold shrinkAll
  induction s.literals generalizing t with
  | nil => rfl
  | cons l ls ih => rw [List.foldl_cons, ih, Literal.blank_shrink l.isBlank_delimiter]

theorem blank_foldl_replace {changes : List (Text × Text)}
    (h : ∀ change ∈ changes, Text.blank change.1 = false ∧ Text.blank change.2 = false) (t : Text) :
    Text.blank (changes.foldl (fun t change => Text.replace change.1 change.2 t) t) =
      Text.blank t := by
  induction changes generalizing t with
  | nil => rfl
  | cons change changes ih =>
    obtain ⟨ht, ho⟩ := h change (List.mem_cons_self ..)
    rw [List.foldl_cons, ih fun change hm => h change (List.mem_cons_of_mem _ hm),
      Text.blank_replace ht ho]

section
variable {s : Stripper} (hg : ∀ token ∈ s.guarded, Text.blank token = false)
include hg

theorem blank_hide (t : Text) : Text.blank (s.hide t) = Text.blank t := by
  rw [hide_eq_foldl]
  apply blank_foldl_replace
  intro change hc
  obtain ⟨g, hz, rfl⟩ := List.mem_map.mp hc
  exact ⟨hg g.1 (List.fst_mem_of_mem_zipIdx hz), blank_mask g.2⟩

theorem blank_reveal (t : Text) : Text.blank (s.reveal t) = Text.blank t := by
  rw [reveal_eq_foldl]
  apply blank_foldl_replace
  intro change hc
  obtain ⟨g, hz, rfl⟩ := List.mem_map.mp hc
  exact ⟨blank_mask g.2, hg g.1 (List.fst_mem_of_mem_zipIdx hz)⟩

theorem blank_strip (line : Text) : Text.blank (s.strip line) = Text.blank line := by
  unfold strip
  split
  · rfl
  split
  · rw [blank_reveal hg, blank_shrinkAll, blank_hide hg]
  · exact blank_shrinkAll s line

end

end Stripper

namespace Rules

theorem guarded_not_blank (l : Language) : ∀ token ∈ l.rules.stripper.guarded,
    Text.blank token = false := by
  cases l <;> decide

theorem blank_strip (l : Language) (line : Text) :
    Text.blank (l.rules.stripper.strip line) = Text.blank line :=
  Stripper.blank_strip (guarded_not_blank l) line

/-! ## Blank lines in blocks -/

theorem after?_of_blank {word t : Text} {c : Char} (hc : c ∈ word) (hw : isBlank c = false)
    (h : Text.blank t = true) : Text.after? word t = none := by
  rw [← Option.not_isSome_iff_eq_none, Text.isSome_after?_iff]
  intro hp
  have ho := Text.occurs_of_blank hc hw h
  rw [Text.occurs_iff.mpr hp.isInfix] at ho
  cases ho

theorem startsWithWord_of_blank {word t : Text} {c : Char} (hc : c ∈ word)
    (hw : isBlank c = false) (h : Text.blank t = true) : startsWithWord word t = false := by
  rw [startsWithWord, after?_of_blank hc hw h]

theorem kindOutside_of_not_opened {rules : Rules} {t : Text}
    (h : ∀ block ∈ rules.block, block.opened t = none) :
    rules.kindOutside t = (rules.plainKind t, false) := by
  unfold kindOutside
  split
  · rfl
  · next block hb => rw [h block hb]

theorem not_closes_of_blank (l : Language) {block : BlockRules} (hb : block ∈ l.rules.block)
    {t : Text} (h : Text.blank t = true) : block.closes t = false ∧ block.codeBehind t = false := by
  cases l with
  | ruby =>
    cases hb
    exact ⟨startsWithWord_of_blank (c := '=') (by decide) (by decide) h, rfl⟩
  | python =>
    cases hb
    exact ⟨Text.occurs_of_blank (c := '"') (by decide) (by decide) h, rfl⟩
  | brace =>
    cases hb
    have ho : Text.occurs "*/".toList t = false :=
      Text.occurs_of_blank (c := '*') (by decide) (by decide) h
    exact ⟨ho, Brace.codeBehind_of_not_occurs ho⟩
  | basic => cases hb

theorem kindInside_of_blank (l : Language) (policy : BlankInBlock) {t : Text}
    (h : Text.blank t = true) : l.rules.kindInside policy t = (kindWithin policy t, true) := by
  unfold kindInside
  cases hb : l.rules.block with
  | none => rfl
  | some block =>
    obtain ⟨hc, hk⟩ := not_closes_of_blank l hb h
    dsimp only
    rw [hc, hk]
    rfl

theorem kindWithin_strip (l : Language) (policy : BlankInBlock) (line : Text) :
    kindWithin policy (l.rules.stripper.strip line) = kindWithin policy line := by
  rw [kindWithin, blank_strip, kindWithin]

theorem kindWithin_of_not_blank (policy : BlankInBlock) {t : Text} (h : Text.blank t = false) :
    kindWithin policy t = .comment := by
  rw [kindWithin, h, Bool.and_false]
  rfl

theorem classify_inside_of_blank (l : Language) (policy : BlankInBlock) {line : Text}
    (h : Text.blank line = true) :
    l.rules.classify policy true line = (kindWithin policy line, true) := by
  have hs : Text.blank (l.rules.stripper.strip line) = true := by rw [blank_strip, h]
  rw [← kindWithin_strip l]
  exact kindInside_of_blank l policy hs

theorem classify_policy_congr (l : Language) (policy policy' : BlankInBlock) {inside : Bool}
    {line : Text} (h : (inside && Text.blank line) = false) :
    l.rules.classify policy inside line = l.rules.classify policy' inside line := by
  cases inside with
  | false => rfl
  | true =>
    have hs : Text.blank (l.rules.stripper.strip line) = false := by rw [blank_strip]; exact h
    have hk : ∀ p, kindWithin p (l.rules.stripper.strip line) = .comment :=
      fun p => kindWithin_of_not_blank p hs
    simp only [classify, kindInside, hk]

/-! ## What decides on a blank kind -/

theorem not_opened_of_blank (l : Language) {t : Text} (h : Text.blank t = true) :
    ∀ block ∈ l.rules.block, block.opened t = none := by
  cases l with
  | ruby =>
    rintro _ ⟨⟩
    have ha : Text.after? "=begin".toList t = none :=
      after?_of_blank (c := '=') (by decide) (by decide) h
    show Ruby.opened t = none
    rw [Ruby.opened, ha]
  | python =>
    rintro _ ⟨⟩
    have ho : Text.occurs Python.tripleQuote t = false :=
      Text.occurs_of_blank (c := '"') (by decide) (by decide) h
    rw [← Option.not_isSome_iff_eq_none, Python.block, Text.isSome_replaceFirst?, ho]
    exact Bool.false_ne_true
  | brace =>
    rintro _ ⟨⟩
    have ho : Text.occurs "/*".toList t = false :=
      Text.occurs_of_blank (c := '*') (by decide) (by decide) h
    exact Option.map_eq_none_iff.mpr (Brace.opening_eq_none_of_not_occurs ho)
  | basic => rintro _ ⟨⟩

theorem classify_outside_of_blank (l : Language) (policy : BlankInBlock) {line : Text}
    (h : Text.blank line = true) : l.rules.classify policy false line = (.blank, false) := by
  have hs : Text.blank (l.rules.stripper.strip line) = true := by rw [blank_strip, h]
  have hk : l.rules.classify policy false line =
      l.rules.kindOutside (l.rules.stripper.strip line) := rfl
  rw [hk, kindOutside_of_not_opened (not_opened_of_blank l hs), plainKind, if_pos hs]

section
variable {rules : Rules} {t : Text} (h : Text.blank t = false)
include h

theorem kindInside_ne_blank (policy : BlankInBlock) : (rules.kindInside policy t).1 ≠ .blank := by
  have hw := kindWithin_of_not_blank policy h
  unfold kindInside
  rw [hw]
  split
  · exact LineKind.noConfusion
  · split
    · exact LineKind.noConfusion
    · split <;> exact LineKind.noConfusion

theorem plainKind_ne_blank : rules.plainKind t ≠ .blank := by
  rw [plainKind, if_neg (by simp [h])]
  split
  · exact LineKind.noConfusion
  · split <;> exact LineKind.noConfusion

theorem kindOutside_ne_blank : (rules.kindOutside t).1 ≠ .blank := by
  have hp : rules.plainKind t ≠ .blank := plainKind_ne_blank h
  unfold kindOutside
  split
  · exact hp
  · split
    · exact hp
    · split <;> exact LineKind.noConfusion

end

theorem classify_ne_blank (rules : Rules) (policy : BlankInBlock) (inside : Bool) {line : Text}
    (h : Text.blank (rules.stripper.strip line) = false) :
    (rules.classify policy inside line).1 ≠ .blank := by
  cases inside with
  | false => exact kindOutside_ne_blank h
  | true => exact kindInside_ne_blank h policy

/-- A line is blank if all its characters are, literals and all, and no block is open that makes it a
comment. A blank line leaves open what was open. -/
theorem classify_eq_blank_iff (l : Language) (policy : BlankInBlock) (inside : Bool) (line : Text) :
    ((l.rules.classify policy inside line).1 = .blank ↔
      (∀ c ∈ line, isBlank c = true) ∧ (inside = false ∨ policy = .blank)) ∧
    ((l.rules.classify policy inside line).1 = .blank →
      (l.rules.classify policy inside line).2 = inside) := by
  have hall : (∀ c ∈ line, isBlank c = true) ↔ Text.blank line = true := List.all_eq_true.symm
  rw [hall]
  cases hb : Text.blank line with
  | false =>
    have hs : Text.blank (l.rules.stripper.strip line) = false := by rw [blank_strip, hb]
    have hn := classify_ne_blank l.rules policy inside hs
    simp [hn]
  | true =>
    cases inside with
    | false => simp [classify_outside_of_blank l policy hb]
    | true =>
      rw [classify_inside_of_blank l policy hb, kindWithin, hb]
      cases policy <;> simp

theorem classify_eq_blank_iff_sample :
    let line := "\u2003\t\r\n".toList
    (∀ c ∈ line, isBlank c = true) ∧ python.classify .blank true line = (.blank, true) ∧
      (ruby.classify .blank false "''".toList).1 ≠ .blank := by
  intro line
  have hb : ∀ c ∈ line, isBlank c = true := List.all_eq_true.mp (by decide)
  obtain ⟨hiff, hstate⟩ := classify_eq_blank_iff .python .blank true line
  have hk : (python.classify .blank true line).1 = .blank := hiff.mpr ⟨hb, Or.inr rfl⟩
  refine ⟨hb, Prod.ext hk (hstate hk), fun hn => ?_⟩
  have hq := ((classify_eq_blank_iff .ruby .blank false "''".toList).1.mp hn).1
  exact absurd (hq '\'' (List.mem_cons_self ..)) (by decide)

/-! ## One run under both policies -/

def blanksInside (rules : Rules) (policy : BlankInBlock) : Bool → List Text → Nat
  | _, [] => 0
  | inside, line :: lines =>
    (inside && Text.blank line).toNat +
      blanksInside rules policy (rules.classify policy inside line).2 lines

section
variable (l : Language)

/-- One line leaves the block open under both policies or under none, and a blank one in a block is
all that counts differently. -/
theorem classify_policies (inside : Bool) (line : Text) :
    (l.rules.classify .blank inside line).2 = (l.rules.classify .comment inside line).2 ∧
      ∀ column, (l.rules.classify .blank inside line).1.counts.get column +
          (if column = .comments then (inside && Text.blank line).toNat else 0) =
        (l.rules.classify .comment inside line).1.counts.get column +
          (if column = .blank then (inside && Text.blank line).toNat else 0) := by
  cases h : inside && Text.blank line with
  | true =>
    obtain ⟨rfl, hb⟩ := Bool.and_eq_true_iff.mp h
    rw [classify_inside_of_blank l .blank hb, classify_inside_of_blank l .comment hb, kindWithin,
      kindWithin, hb]
    refine ⟨rfl, fun column => ?_⟩
    cases column <;> rfl
  | false =>
    rw [classify_policy_congr l .blank .comment h]
    refine ⟨rfl, fun column => ?_⟩
    rw [Bool.toNat_false, ite_self, ite_self]

theorem insideAfter_policies (inside : Bool) (lines : List Text) :
    l.rules.insideAfter .blank inside lines = l.rules.insideAfter .comment inside lines := by
  induction lines generalizing inside with
  | nil => rfl
  | cons line lines ih =>
    have hi := (classify_policies l inside line).1
    unfold insideAfter at ih ⊢
    rw [List.foldl_cons, List.foldl_cons, ih, hi]

theorem sum_kindsOf_policies (column : Counts.Column) (inside : Bool) (lines : List Text) :
    LineKind.sum column (l.rules.kindsOf .blank inside lines) +
        (if column = .comments then l.rules.blanksInside .blank inside lines else 0) =
      LineKind.sum column (l.rules.kindsOf .comment inside lines) +
        (if column = .blank then l.rules.blanksInside .blank inside lines else 0) := by
  induction lines generalizing inside with
  | nil => cases column <;> rfl
  | cons line lines ih =>
    obtain ⟨hi, hc⟩ := classify_policies l inside line
    have hline := hc column
    have hlines := ih (l.rules.classify .blank inside line).2
    rw [kindsOf_cons, kindsOf_cons, LineKind.sum_cons, LineKind.sum_cons, blanksInside, ← hi]
    cases column <;> simp only [reduceCtorEq, if_true, if_false] at hline hlines ⊢ <;> omega

end

end Rules

/-- A run overflows under both policies or under none. If it does not, both leave the same block
open and count the same code and the same lines; the blank lines met in a block are blank under one
and comments under the other. -/
theorem feedAll?_policies (l : Language) (lines : List Text) :
    (UInt64.size ≤ lines.length →
      Tally.start.feedAll? l.rules .blank lines = none ∧
        Tally.start.feedAll? l.rules .comment lines = none) ∧
    (lines.length < UInt64.size → ∃ t t',
      Tally.start.feedAll? l.rules .blank lines = some t ∧
        Tally.start.feedAll? l.rules .comment lines = some t' ∧
        t.inside = t'.inside ∧ t.counts.code = t'.counts.code ∧ t.counts.lines = t'.counts.lines ∧
        t.counts.blank.toNat =
          t'.counts.blank.toNat + l.rules.blanksInside .blank false lines ∧
        t'.counts.comments.toNat =
          t.counts.comments.toNat + l.rules.blanksInside .blank false lines) := by
  constructor
  · intro h
    exact ⟨(Rules.feedAll?_start_eq_none_iff _ _).mpr h, (Rules.feedAll?_start_eq_none_iff _ _).mpr h⟩
  · intro h
    obtain ⟨t, ht, hi⟩ := Rules.exists_feedAll?_start l.rules .blank h
    obtain ⟨t', ht', hi'⟩ := Rules.exists_feedAll?_start l.rules .comment h
    have hc := (Rules.of_feedAll?_start l.rules .blank ht).2
    have hc' := (Rules.of_feedAll?_start l.rules .comment ht').2
    have hsum : ∀ column, t.counts.get column +
          (if column = .comments then l.rules.blanksInside .blank false lines else 0) =
        t'.counts.get column +
          (if column = .blank then l.rules.blanksInside .blank false lines else 0) := by
      intro column
      rw [hc, hc', Rules.sum_kindsOf_policies]
    refine ⟨t, t', ht, ht', ?_, ?_, ?_, ?_, ?_⟩
    · rw [hi, hi', Rules.insideAfter_policies]
    · exact UInt64.toNat_inj.mp (hsum .code)
    · exact UInt64.toNat_inj.mp (hsum .lines)
    · exact hsum .blank
    · exact (hsum .comments).symm

theorem feedAll?_policies_sample :
    let lines := [" ".toList, "=begin".toList, "".toList, "a".toList, "\t".toList]
    lines.length < UInt64.size ∧ ∃ t t',
      Tally.start.feedAll? Language.ruby.rules .blank lines = some t ∧
        Tally.start.feedAll? Language.ruby.rules .comment lines = some t' ∧
        t.inside = t'.inside ∧ t.counts.code = t'.counts.code ∧
        t.counts.blank.toNat = t'.counts.blank.toNat + 2 ∧
        t'.counts.comments.toNat = t.counts.comments.toNat + 2 := by
  intro lines
  have hl : lines.length < UInt64.size := by decide
  have hk : Language.ruby.rules.blanksInside .blank false lines = 2 := by decide +kernel
  obtain ⟨t, t', ht, ht', hi, hc, -, hb, hm⟩ := (feedAll?_policies .ruby lines).2 hl
  rw [hk] at hb hm
  exact ⟨hl, t, t', ht, ht', hi, hc, hb, hm⟩

end LineCensus
