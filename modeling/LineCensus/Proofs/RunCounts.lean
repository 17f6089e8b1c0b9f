import LineCensus.Line
import LineCensus.Proofs.Sums
import LineCensus.Proofs.TextSearch

/-!
# What a run of lines counts

A tally adds up the counts of the kinds that its lines have (`countLines?_eq_sum?`). No column grows
faster than the lines do, so nothing but their number decides whether a counter overflows
(`countLines?_eq_none_iff`).

Behind a newline a text goes on with a new line, whatever ends the last one, and so does a byte string.
So a whole counts what its parts count, the second part met as the first one leaves off
(`count_append`).
-/

namespace LineCensus

/-! ## Lines classified one after the other -/

namespace Rules

/-- The kind of each line, and whether a block comment is open behind it. -/
def classifyAll (rules : Rules) (policy : BlankInBlock) : Bool → List Text → List (LineKind × Bool)
  | _, [] => []
  | inside, line :: lines =>
    let k := rules.classify policy inside line
    k :: rules.classifyAll policy k.2 lines

def insideAfter (rules : Rules) (policy : BlankInBlock) (inside : Bool) (lines : List Text) : Bool :=
  lines.foldl (fun inside line => (rules.classify policy inside line).2) inside

theorem insideAfter_snoc (rules : Rules) (policy : BlankInBlock) (inside : Bool)
    (lines : List Text) (line : Text) : rules.insideAfter policy inside (lines ++ [line]) =
      (rules.classify policy (rules.insideAfter policy inside lines) line).2 := by
  rw [insideAfter, List.foldl_append]
  rfl

end Rules

namespace LineKind

def sum (column : Counts.Column) (kinds : List LineKind) : Nat :=
  (kinds.map fun k => k.counts.get column).sum

theorem sum_cons (column : Counts.Column) (k : LineKind) (kinds : List LineKind) :
    sum column (k :: kinds) = k.counts.get column + sum column kinds := by
  rw [sum, List.map_cons, List.sum_cons, sum]

theorem get_counts_le (k : LineKind) (column : Counts.Column) : k.counts.get column ≤ 1 := by
  cases k <;> cases column <;> decide

theorem get_counts_lines (k : LineKind) : k.counts.get .lines = 1 := by
  cases k <;> rfl

theorem sum_le_length (column : Counts.Column) (kinds : List LineKind) :
    sum column kinds ≤ kinds.length := by
  induction kinds with
  | nil => exact Nat.le_refl 0
  | cons k kinds ih =>
    have := get_counts_le k column
    rw [sum_cons, List.length_cons]
    omega

theorem sum_lines (kinds : List LineKind) : sum .lines kinds = kinds.length := by
  induction kinds with
  | nil => rfl
  | cons k kinds ih => rw [sum_cons, get_counts_lines, ih, List.length_cons, Nat.add_comm]

theorem map_get_counts (column : Counts.Column) (kinds : List LineKind) :
    ((kinds.map counts).map (·.get column)).sum = sum column kinds := by
  rw [List.map_map]; rfl

theorem sum?_counts_eq_none_iff {kinds : List LineKind} :
    Counts.sum? (kinds.map counts) = none ↔ UInt64.size ≤ kinds.length := by
  rw [Counts.sum?_eq_none_iff]
  constructor
  · rintro ⟨column, h⟩
    rw [map_get_counts] at h
    exact Nat.le_trans h (sum_le_length column kinds)
  · intro h
    exact ⟨.lines, by rw [map_get_counts, sum_lines]; exact h⟩

end LineKind

namespace Rules
variable (rules : Rules) (policy : BlankInBlock)

def kindsOf (inside : Bool) (lines : List Text) : List LineKind :=
  (rules.classifyAll policy inside lines).map Prod.fst

theorem kindsOf_cons (inside : Bool) (line : Text) (lines : List Text) :
    rules.kindsOf policy inside (line :: lines) =
      (rules.classify policy inside line).1 ::
        rules.kindsOf policy (rules.classify policy inside line).2 lines := rfl

theorem length_kindsOf (inside : Bool) (lines : List Text) :
    (rules.kindsOf policy inside lines).length = lines.length := by
  induction lines generalizing inside with
  | nil => rfl
  | cons line lines ih => rw [kindsOf_cons, List.length_cons, ih, List.length_cons]

theorem feed?_eq (t : Tally) (line : Text) : t.feed? rules policy line =
    (t.counts.add? (rules.classify policy t.inside line).1.counts).map fun counts =>
      ((rules.classify policy t.inside line).1,
        ⟨counts, (rules.classify policy t.inside line).2⟩) := by
  unfold Tally.feed?
  generalize rules.classify policy t.inside line = k
  obtain ⟨kind, inside⟩ := k
  dsimp only
  cases t.counts.add? kind.counts <;> rfl

theorem of_feed? {t next : Tally} {line : Text} {kind : LineKind}
    (h : t.feed? rules policy line = some (kind, next)) :
    kind = (rules.classify policy t.inside line).1 ∧
      next.inside = (rules.classify policy t.inside line).2 ∧
      t.counts.add? kind.counts = some next.counts := by
  rw [feed?_eq, Option.map_eq_some_iff] at h
  obtain ⟨counts, hc, he⟩ := h
  cases he
  exact ⟨rfl, rfl, hc⟩

theorem feedAll?_cons (t : Tally) (line : Text) (lines : List Text) :
    t.feedAll? rules policy (line :: lines) =
      (t.feed? rules policy line).bind fun fed => fed.2.feedAll? rules policy lines := by
  rw [Tally.feedAll?, List.foldlM_cons, Option.bind_eq_bind, Option.bind_map]
  rfl

theorem feedAll?_eq (t : Tally) (lines : List Text) : t.feedAll? rules policy lines =
    (Counts.addAll? t.counts ((rules.kindsOf policy t.inside lines).map LineKind.counts)).map
      fun counts => ⟨counts, rules.insideAfter policy t.inside lines⟩ := by
  induction lines generalizing t with
  | nil => rfl
  | cons line lines ih =>
    rw [kindsOf_cons, List.map_cons, Counts.addAll?, List.foldlM_cons, feedAll?_cons, feed?_eq]
    cases t.counts.add? (rules.classify policy t.inside line).1.counts with
    | none => rfl
    | some counts => exact ih ⟨counts, (rules.classify policy t.inside line).2⟩

theorem counts_feedAll? (t : Tally) (lines : List Text) :
    (t.feedAll? rules policy lines).map Tally.counts =
      Counts.addAll? t.counts ((rules.kindsOf policy t.inside lines).map LineKind.counts) := by
  rw [feedAll?_eq, Option.map_map]
  exact Option.map_id'

theorem feedAll?_append (t : Tally) (lines lines' : List Text) :
    t.feedAll? rules policy (lines ++ lines') =
      (t.feedAll? rules policy lines).bind fun next => next.feedAll? rules policy lines' :=
  List.foldlM_append

theorem counts_feedAll?_of_zero (t : Tally) (lines : List Text) :
    (t.feedAll? rules policy lines).map Tally.counts =
      (Tally.feedAll? rules policy ⟨Counts.zero, t.inside⟩ lines).bind fun more =>
        t.counts.add? more.counts := by
  have hz := counts_feedAll? rules policy ⟨Counts.zero, t.inside⟩ lines
  rw [counts_feedAll?, Counts.addAll?_eq, Counts.sum?, ← hz, Option.bind_map]
  rfl

theorem countLines?_eq_sum? (lines : List Text) : countLines? rules policy lines =
    Counts.sum? ((rules.kindsOf policy false lines).map LineKind.counts) :=
  counts_feedAll? rules policy Tally.start lines

theorem countLines?_eq_none_iff {lines : List Text} :
    countLines? rules policy lines = none ↔ UInt64.size ≤ lines.length := by
  rw [countLines?_eq_sum?, LineKind.sum?_counts_eq_none_iff, length_kindsOf]

theorem feedAll?_start_eq_none_iff {lines : List Text} :
    Tally.start.feedAll? rules policy lines = none ↔ UInt64.size ≤ lines.length := by
  rw [← countLines?_eq_none_iff rules policy, countLines?, Option.map_eq_none_iff]

theorem of_feedAll?_start {lines : List Text} {t : Tally}
    (h : Tally.start.feedAll? rules policy lines = some t) :
    t.inside = rules.insideAfter policy false lines ∧
      ∀ column, t.counts.get column = LineKind.sum column (rules.kindsOf policy false lines) := by
  rw [feedAll?_eq, Option.map_eq_some_iff] at h
  obtain ⟨counts, hc, rfl⟩ := h
  refine ⟨rfl, fun column => ?_⟩
  rw [← LineKind.map_get_counts]
  exact Counts.sum?_eq_some_iff.mp hc column

theorem exists_feedAll?_start {lines : List Text} (h : lines.length < UInt64.size) :
    ∃ t, Tally.start.feedAll? rules policy lines = some t ∧
      t.inside = rules.insideAfter policy false lines := by
  have hn : Tally.start.feedAll? rules policy lines ≠ none := by
    rw [ne_eq, feedAll?_start_eq_none_iff]
    exact Nat.not_le.mpr h
  obtain ⟨t, ht⟩ := Option.ne_none_iff_exists'.mp hn
  exact ⟨t, ht, (of_feedAll?_start rules policy ht).1⟩

end Rules

namespace Tally

/-- Fed one line after the other, the first tally returns these kinds and turns into the second. -/
inductive Feeds (rules : Rules) (policy : BlankInBlock) :
    Tally → List Text → List LineKind → Tally → Prop
  | nil {t : Tally} : Feeds rules policy t [] [] t
  | cons {t next last : Tally} {line : Text} {lines : List Text} {kind : LineKind}
      {kinds : List LineKind} : t.feed? rules policy line = some (kind, next) →
      Feeds rules policy next lines kinds last →
      Feeds rules policy t (line :: lines) (kind :: kinds) last

theorem feeds_iff {rules : Rules} {policy : BlankInBlock} {t last : Tally} {lines : List Text}
    {kinds : List LineKind} : Feeds rules policy t lines kinds last ↔
      t.feedAll? rules policy lines = some last ∧ kinds = rules.kindsOf policy t.inside lines := by
  constructor
  · intro h
    induction h with
    | nil => exact ⟨rfl, rfl⟩
    | cons hf _ ih =>
      obtain ⟨hk, hi, -⟩ := Rules.of_feed? rules policy hf
      rw [Rules.feedAll?_cons, hf, Rules.kindsOf_cons, ← hk, ← hi, ← ih.2]
      exact ⟨ih.1, rfl⟩
  · rintro ⟨h, rfl⟩
    induction lines generalizing t with
    | nil => cases h; exact .nil
    | cons line lines ih =>
      rw [Rules.feedAll?_cons, Option.bind_eq_some_iff] at h
      obtain ⟨⟨kind, next⟩, hf, hl⟩ := h
      obtain ⟨hk, hi, -⟩ := Rules.of_feed? rules policy hf
      rw [Rules.kindsOf_cons, ← hk, ← hi]
      exact .cons hf (ih hl)

end Tally

/-! ## The lines of two parts -/

theorem Text.lines_append {a : Text} (h : a = [] ∨ a.getLast? = some '\n') (b : Text) :
    lines (a ++ b) = lines a ++ lines b := by
  rw [lines, cutBehind_append h, List.map_append]
  rfl

theorem Bytes.lines_append {a : Bytes} (h : a = [] ∨ a.getLast? = some 0x0A) (b : Bytes) :
    Bytes.lines (a ++ b) = Bytes.lines a ++ Bytes.lines b := by
  rw [Bytes.lines, Text.cutBehind_append h, List.map_append]
  rfl

/-! ## The counts of two parts -/

/-- The whole is what two runs of lines count, the second one read by a counter that starts where the
first one ends, with a block open or not. -/
structure AddsUp (rules : Rules) (policy : BlankInBlock) (first second : List Text)
    (whole : Option Counts) : Prop where
  sum : whole = do
    let t ← Tally.start.feedAll? rules policy first
    let more ← Tally.feedAll? rules policy ⟨Counts.zero, t.inside⟩ second
    t.counts.add? more.counts
  merge : ∀ t, Tally.start.feedAll? rules policy first = some t → t.inside = false →
    whole = do
      let a ← countLines? rules policy first
      let b ← countLines? rules policy second
      a.add? b
  overflow : whole = none ↔ UInt64.size ≤ first.length + second.length

section
variable (rules : Rules) (policy : BlankInBlock)

theorem countLines?_append (first second : List Text) : countLines? rules policy (first ++ second) =
    (Tally.start.feedAll? rules policy first).bind fun t =>
      (Tally.feedAll? rules policy ⟨Counts.zero, t.inside⟩ second).bind fun more =>
        t.counts.add? more.counts := by
  rw [countLines?, Rules.feedAll?_append, Option.map_bind]
  exact Option.bind_congr fun t _ => Rules.counts_feedAll?_of_zero rules policy t second

theorem addsUp_countLines? (first second : List Text) :
    AddsUp rules policy first second (countLines? rules policy (first ++ second)) where
  sum := countLines?_append rules policy first second
  merge t ht hi := by
    have hc : countLines? rules policy first = some t.counts := by rw [countLines?, ht]; rfl
    rw [countLines?_append, ht, hc, Option.bind_some, hi, Option.bind_eq_bind, Option.bind_some,
      countLines?, Option.bind_map]
    rfl
  overflow := by rw [Rules.countLines?_eq_none_iff, List.length_append]

/-- If a part is empty or ends in a newline, text or bytes can be counted up to there and from
there on. -/
theorem count_append :
    (∀ a b : Text, a = [] ∨ a.getLast? = some '\n' →
      AddsUp rules policy (Text.lines a) (Text.lines b) (countText? rules policy (a ++ b))) ∧
    ∀ a b : Bytes, a = [] ∨ a.getLast? = some 0x0A →
      AddsUp rules policy (Bytes.lines a) (Bytes.lines b) (countBytes? rules policy (a ++ b)) := by
  constructor
  · intro a b h
    rw [countText?, Text.lines_append h]
    exact addsUp_countLines? rules policy _ _
  · intro a b h
    rw [countBytes?, Bytes.lines_append h]
    exact addsUp_countLines? rules policy _ _

end

theorem count_append_sample :
    let a := "x /* y\r\n".toList
    let b := "z */ w\n\nq".toList
    let bytes : Bytes := [0x23, 0xC3, 0x0D, 0x0A]
    let more : Bytes := [0xA9, 0x0A, 0x0A, 0x23]
    (a = [] ∨ a.getLast? = some '\n') ∧
      AddsUp Rules.brace .blank (Text.lines a) (Text.lines b)
        (countText? Rules.brace .blank (a ++ b)) ∧
      countText? Rules.brace .blank (a ++ b) = some ⟨3, 2, 1, 4⟩ ∧
      (bytes = [] ∨ bytes.getLast? = some 0x0A) ∧
      AddsUp Rules.ruby .blank (Bytes.lines bytes) (Bytes.lines more)
        (countBytes? Rules.ruby .blank (bytes ++ more)) ∧
      countBytes? Rules.ruby .blank (bytes ++ more) = some ⟨1, 2, 1, 4⟩ := by
  intro a b bytes more
  have ha : a = [] ∨ a.getLast? = some '\n' := Or.inr (by decide)
  have hb : bytes = [] ∨ bytes.getLast? = some 0x0A := Or.inr (by decide)
  exact ⟨ha, (count_append Rules.brace .blank).1 a b ha, by decide, hb,
    (count_append Rules.ruby .blank).2 bytes more hb, by decide⟩

end LineCensus
