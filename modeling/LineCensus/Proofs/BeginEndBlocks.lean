import LineCensus.Proofs.BlankLines
import LineCensus.Proofs.RunCounts
import Mathlib.Data.List.Induction

/-!
# Blocks between `=begin` and `=end`

A word without delimiters stands at the start of a line exactly if it does with the literals shrunk
(`startsWithWord_strip`). So a Ruby block opens at a raw line that begins with `=begin`, whatever was
open, and nothing but a raw line that begins with `=end` closes it: a run leaves it open exactly if the
last of these lines is a `=begin` (`feedAll?_ruby`).
-/

namespace LineCensus

/-! ## Words at the start of a line -/

namespace Literal

section
variable {d : Char}

theorem shrink_cons (c : Char) (r : Text) :
    (∃ r', shrink d (c :: r) = c :: r') ∨
      c = d ∧ ∃ r', shrink d (c :: r) = placeholder :: r' := by
  by_cases hc : c = d
  · rw [hc, shrink_delimiter]
    cases pastNext? d '\n' r with
    | none => exact Or.inl ⟨_, rfl⟩
    | some rest => exact Or.inr ⟨rfl, _, rfl⟩
  · exact Or.inl ⟨_, shrink_cons_of_ne hc r⟩

theorem after?_shrink {word : Text} (hd : d ∉ word) (hx : placeholder ∉ word) (t : Text) :
    Text.after? word (shrink d t) = (Text.after? word t).map (shrink d) := by
  induction word generalizing t with
  | nil => rfl
  | cons p ps ih =>
    rw [List.mem_cons, not_or] at hd hx
    cases t with
    | nil => rfl
    | cons c r =>
      by_cases hp : p = c
      · subst hp
        rw [shrink_cons_of_ne (Ne.symm hd.1), Text.after?, Text.after?, if_pos rfl, if_pos rfl,
          ih hd.2 hx.2]
      · have hn : Text.after? (p :: ps) (c :: r) = none := by rw [Text.after?, if_neg hp]
        rw [hn, Option.map_none]
        rcases shrink_cons (d := d) c r with ⟨r', hr⟩ | ⟨-, r', hr⟩
        · rw [hr, Text.after?, if_neg hp]
        · rw [hr, Text.after?, if_neg (Ne.symm hx.1)]

theorem atWordEnd_shrink (hd : isBlank d = false) (t : Text) :
    Text.atWordEnd (shrink d t) = Text.atWordEnd t := by
  cases t with
  | nil => rfl
  | cons c r =>
    rcases shrink_cons (d := d) c r with ⟨r', hr⟩ | ⟨hc, r', hr⟩
    · rw [hr, Text.atWordEnd, Text.atWordEnd]
    · rw [hr, Text.atWordEnd, Text.atWordEnd, isBlank_placeholder, hc, hd]

theorem startsWithWord_shrink {word : Text} (hd : d ∉ word) (hb : isBlank d = false)
    (hx : placeholder ∉ word) (t : Text) :
    Rules.startsWithWord word (shrink d t) = Rules.startsWithWord word t := by
  unfold Rules.startsWithWord
  rw [after?_shrink hd hx]
  cases Text.after? word t with
  | none => rfl
  | some rest => exact atWordEnd_shrink hb rest

end

end Literal

namespace Stripper

theorem startsWithWord_strip {s : Stripper} (hs : s.guarded = []) {word : Text}
    (hd : ∀ l : Literal, l.delimiter ∉ word) (hx : Literal.placeholder ∉ word) (line : Text) :
    Rules.startsWithWord word (s.strip line) = Rules.startsWithWord word line := by
  rw [strip_of_unguarded hs, shrinkAll]
  induction s.literals generalizing line with
  | nil => rfl
  | cons l ls ih =>
    rw [List.foldl_cons, ih, Literal.startsWithWord_shrink (hd l) l.isBlank_delimiter hx]

end Stripper

namespace Rules.Ruby

def IsWordLine (word line : Text) : Prop :=
  ∃ rest, line = word ++ rest ∧ ∀ c ∈ rest.head?, isBlank c = true

def IsBegin (line : Text) : Prop :=
  IsWordLine "=begin".toList line

def IsEnd (line : Text) : Prop :=
  IsWordLine "=end".toList line

theorem startsWithWord_iff {word line : Text} :
    startsWithWord word line = true ↔ IsWordLine word line := by
  have hw : ∀ rest, Text.atWordEnd rest = true ↔ ∀ c ∈ rest.head?, isBlank c = true := by
    intro rest
    cases rest <;> simp [Text.atWordEnd]
  unfold startsWithWord
  constructor
  · intro h
    split at h
    · next rest ha => exact ⟨rest, Text.after?_eq_some_iff.mp ha, (hw rest).mp h⟩
    · cases h
  · rintro ⟨rest, rfl, h⟩
    rw [Text.after?_append]
    exact (hw rest).mpr h

instance (word line : Text) : Decidable (IsWordLine word line) :=
  decidable_of_iff _ startsWithWord_iff

instance (line : Text) : Decidable (IsBegin line) :=
  inferInstanceAs (Decidable (IsWordLine _ line))

theorem startsWithWord_strip {word : Text} (hd : ∀ l : Literal, l.delimiter ∉ word)
    (hx : Literal.placeholder ∉ word) {line : Text} :
    startsWithWord word (ruby.stripper.strip line) = true ↔ IsWordLine word line := by
  rw [Stripper.startsWithWord_strip rfl hd hx, startsWithWord_iff]

theorem startsWithWord_begin {line : Text} :
    startsWithWord "=begin".toList (ruby.stripper.strip line) = true ↔ IsBegin line :=
  startsWithWord_strip (by intro l; cases l <;> decide) (by decide)

theorem startsWithWord_end {line : Text} :
    startsWithWord "=end".toList (ruby.stripper.strip line) = true ↔ IsEnd line :=
  startsWithWord_strip (by intro l; cases l <;> decide) (by decide)

theorem not_isEnd_of_isBegin {line : Text} (h : IsBegin line) : ¬ IsEnd line := by
  obtain ⟨rest, rfl, -⟩ := h
  rintro ⟨rest', he, -⟩
  exact absurd (List.cons.inj (List.cons.inj he).2).1 (by decide)

/-! ## One line -/

theorem opened_of_not_begin {t : Text} (h : ¬ startsWithWord "=begin".toList t = true) :
    opened t = none := by
  unfold startsWithWord at h
  unfold opened
  split at h
  · rw [if_neg h]
  · rfl

/-- What is left of a line that opens a block starts with the placeholder, so it closes none. -/
theorem exists_opened_of_begin {t : Text} (h : startsWithWord "=begin".toList t = true) :
    ∃ rest, opened t = some rest ∧ block.closes rest = false := by
  unfold startsWithWord at h
  unfold opened
  split at h
  · next rest _ =>
    rw [if_pos h]
    exact ⟨Literal.placeholder :: rest.drop 1, rfl, rfl⟩
  · cases h

section
variable (policy : BlankInBlock) {inside : Bool} {line : Text}

theorem classify_inside : ruby.classify policy true line =
    if startsWithWord "=end".toList (ruby.stripper.strip line) then (.comment, false)
    else (kindWithin policy line, true) := by
  have hk : kindWithin policy (ruby.stripper.strip line) = kindWithin policy line :=
    kindWithin_strip .ruby policy line
  rw [← hk]
  rfl

theorem classify_outside : ruby.classify policy false line =
    match opened (ruby.stripper.strip line) with
    | none => (ruby.plainKind (ruby.stripper.strip line), false)
    | some rest => (.comment, !block.closes rest) := rfl

theorem classify_end (h : IsEnd line) : ruby.classify policy true line = (.comment, false) := by
  rw [classify_inside, if_pos (startsWithWord_end.mpr h)]

theorem classify_inside_of_not_end (h : ¬ IsEnd line) :
    ruby.classify policy true line = (kindWithin policy line, true) := by
  rw [classify_inside, if_neg (mt startsWithWord_end.mp h)]

theorem classify_begin (h : IsBegin line) :
    ruby.classify policy inside line = (.comment, true) := by
  cases inside with
  | false =>
    obtain ⟨rest, ho, hc⟩ := exists_opened_of_begin (startsWithWord_begin.mpr h)
    rw [classify_outside, ho]
    dsimp only
    rw [hc]
    rfl
  | true =>
    have hn : Text.blank line = false := by
      obtain ⟨rest, rfl, -⟩ := h
      rfl
    rw [classify_inside_of_not_end policy (not_isEnd_of_isBegin h),
      kindWithin_of_not_blank policy hn]

theorem inside_classify_outside (h : ¬ IsBegin line) :
    (ruby.classify policy false line).2 = false := by
  rw [classify_outside, opened_of_not_begin (mt startsWithWord_begin.mp h)]

theorem kind_inside_of_not_blank (h : Text.blank line = false) :
    (ruby.classify policy true line).1 = .comment := by
  by_cases he : IsEnd line
  · rw [classify_end policy he]
  · rw [classify_inside_of_not_end policy he, kindWithin_of_not_blank policy h]

end

/-! ## Runs -/

/-- Whether a block is open behind a line, if that does not depend on what was open before it. -/
def turn? (line : Text) : Option Bool :=
  if startsWithWord "=begin".toList line then some true
  else if startsWithWord "=end".toList line then some false
  else none

theorem turn?_cases (line : Text) :
    (IsBegin line ∧ turn? line = some true) ∨ (IsEnd line ∧ turn? line = some false) ∨
      (¬ IsBegin line ∧ ¬ IsEnd line ∧ turn? line = none) := by
  unfold turn?
  by_cases hb : IsBegin line
  · exact Or.inl ⟨hb, if_pos (startsWithWord_iff.mpr hb)⟩
  rw [if_neg (mt startsWithWord_iff.mp hb)]
  by_cases he : IsEnd line
  · exact Or.inr (Or.inl ⟨he, if_pos (startsWithWord_iff.mpr he)⟩)
  · exact Or.inr (Or.inr ⟨hb, he, if_neg (mt startsWithWord_iff.mp he)⟩)

theorem turn?_eq_some_true_iff {line : Text} : turn? line = some true ↔ IsBegin line := by
  rcases turn?_cases line with ⟨hb, ht⟩ | ⟨he, ht⟩ | ⟨hb, -, ht⟩
  · simp [ht, hb]
  · simp [ht, mt not_isEnd_of_isBegin (not_not_intro he)]
  · simp [ht, hb]

theorem turn?_eq_none_iff {line : Text} :
    turn? line = none ↔ ¬ IsBegin line ∧ ¬ IsEnd line := by
  rcases turn?_cases line with ⟨hb, ht⟩ | ⟨he, ht⟩ | ⟨hb, he, ht⟩
  · simp [ht, hb]
  · simp [ht, he]
  · simp [ht, hb, he]

theorem inside_classify (policy : BlankInBlock) (inside : Bool) (line : Text) :
    (ruby.classify policy inside line).2 = (turn? line).getD inside := by
  rcases turn?_cases line with ⟨hb, ht⟩ | ⟨he, ht⟩ | ⟨hb, he, ht⟩
  · rw [classify_begin policy hb, ht]
    rfl
  · have hb : ¬ IsBegin line := fun hb => not_isEnd_of_isBegin hb he
    rw [ht]
    cases inside with
    | false => exact inside_classify_outside policy hb
    | true => rw [classify_end policy he]; rfl
  · rw [ht]
    cases inside with
    | false => exact inside_classify_outside policy hb
    | true => rw [classify_inside_of_not_end policy he]; rfl

/-- The last line that turns blocks on or off decides. -/
theorem insideAfter_ruby (policy : BlankInBlock) (inside : Bool) (lines : List Text) :
    ruby.insideAfter policy inside lines = (lines.filterMap turn?).getLast?.getD inside := by
  induction lines using List.reverseRecOn with
  | nil => rfl
  | append_singleton lines line ih =>
    rw [insideAfter_snoc, inside_classify, ih, List.filterMap_append]
    cases ht : turn? line with
    | none => rw [List.filterMap_cons_none ht, List.filterMap_nil, List.append_nil]; rfl
    | some inside' =>
      rw [List.filterMap_cons_some ht, List.filterMap_nil, List.getLast?_concat]
      rfl

theorem getLast?_turns_iff {lines : List Text} :
    (lines.filterMap turn?).getLast? = some true ↔
      ∃ before line after, lines = before ++ line :: after ∧ IsBegin line ∧
        ∀ l ∈ after, ¬ IsBegin l ∧ ¬ IsEnd l := by
  rw [List.getLast?_eq_some_iff]
  constructor
  · rintro ⟨turns, h⟩
    obtain ⟨before, rest, rfl, -, hr⟩ := List.filterMap_eq_append_iff.mp h
    obtain ⟨unturned, line, after, rfl, -, hb, ha⟩ := List.filterMap_eq_cons_iff.mp hr
    refine ⟨before ++ unturned, line, after, by rw [List.append_assoc], ?_, fun l hl => ?_⟩
    · exact turn?_eq_some_true_iff.mp hb
    · exact turn?_eq_none_iff.mp (List.filterMap_eq_nil_iff.mp ha l hl)
  · rintro ⟨before, line, after, rfl, hb, ha⟩
    refine ⟨before.filterMap turn?, ?_⟩
    rw [List.filterMap_append, List.filterMap_cons_some (turn?_eq_some_true_iff.mpr hb),
      List.filterMap_eq_nil_iff.mpr fun l hl => turn?_eq_none_iff.mpr (ha l hl)]

/-- The tally counts the line as one more comment and as nothing else. -/
def CountsAsComment (policy : BlankInBlock) (t : Tally) (line : Text) : Prop :=
  ∃ inside, t.feed? ruby policy line =
    (t.counts.add? ⟨0, 1, 0, 1⟩).map fun counts => (.comment, ⟨counts, inside⟩)

theorem countsAsComment_of_kind {policy : BlankInBlock} {t : Tally} {line : Text}
    (h : (ruby.classify policy t.inside line).1 = .comment) : CountsAsComment policy t line := by
  refine ⟨(ruby.classify policy t.inside line).2, ?_⟩
  rw [feed?_eq, h]
  rfl

/-- A run that its counters can hold leaves a block open exactly if the last line of it that begins
with `=begin` or `=end` begins with `=begin`. Behind it the next line counts as a comment if it begins
a block, or if it comes in one and is not blank, be it the end or not. -/
theorem feedAll?_ruby (policy : BlankInBlock) (lines : List Text) :
    (Tally.start.feedAll? ruby policy lines = none ↔ UInt64.size ≤ lines.length) ∧
    ∀ t, Tally.start.feedAll? ruby policy lines = some t →
      (t.inside = true ↔ ∃ before line after, lines = before ++ line :: after ∧ IsBegin line ∧
        ∀ l ∈ after, ¬ IsBegin l ∧ ¬ IsEnd l) ∧
      ∀ line, IsBegin line ∨ (t.inside = true ∧ (IsEnd line ∨ Text.blank line = false)) →
        CountsAsComment policy t line := by
  refine ⟨feedAll?_start_eq_none_iff ruby policy, fun t ht => ⟨?_, fun line hl => ?_⟩⟩
  · rw [(of_feedAll?_start ruby policy ht).1, insideAfter_ruby, ← getLast?_turns_iff]
    cases (lines.filterMap turn?).getLast? <;> simp
  · apply countsAsComment_of_kind
    rcases hl with hb | ⟨hin, he | hn⟩
    · rw [classify_begin policy hb]
    · rw [hin, classify_end policy he]
    · rw [hin, kind_inside_of_not_blank policy hn]

theorem feedAll?_ruby_sample :
    let lines := ["=begin 'a".toList, "=ending".toList, "it's =end".toList, "=end # b".toList,
      "=begin\tc".toList]
    ∃ t, Tally.start.feedAll? ruby .blank lines = some t ∧ t.inside = true ∧
      CountsAsComment .blank t "=end 'd'".toList := by
  intro lines
  obtain ⟨hn, hsome⟩ := feedAll?_ruby .blank lines
  obtain ⟨t, ht⟩ := Option.ne_none_iff_exists'.mp (mt hn.mp (by decide))
  obtain ⟨hi, hc⟩ := hsome t ht
  have hb : IsBegin "=begin\tc".toList := ⟨"\tc".toList, rfl, by rintro c ⟨⟩; rfl⟩
  have hin : t.inside = true :=
    hi.mpr ⟨lines.take 4, "=begin\tc".toList, [], rfl, hb, List.forall_mem_nil _⟩
  have he : IsEnd "=end 'd'".toList := ⟨" 'd'".toList, rfl, by rintro c ⟨⟩; rfl⟩
  exact ⟨t, ht, hin, hc _ (Or.inr ⟨hin, Or.inl he⟩)⟩

end Rules.Ruby

end LineCensus
