import LineCensus.Proofs.LineComments
import LineCensus.Proofs.Masks
import LineCensus.Proofs.OutsideLiterals

/-!
# Lines without markers

Stripping puts in nothing but placeholders. Whatever else stands together behind it stood together
before: no literal that goes and no token that comes back joins two halves of a marker
(`infix_of_infix_strip`). So a line in which nothing is marked, be it in a literal, is code unless it is
blank, and opens no block (`strip_infix_and_classify_unmarked`).
-/

namespace LineCensus

/-! ## Stripping -/

namespace Stripper

section
variable {s : Stripper} {line : Text} (h : Legible s.guarded line)
include h

theorem exists_strip_eq_write : ∃ spelling symbols, write spelling symbols = line ∧
    s.strip line = write spelling (passes s.literals symbols) := by
  by_cases hf : frame ∈ line
  · refine ⟨mask, line.map .char, write_chars mask line, ?_⟩
    rw [← shrinkAll_write, write_chars, strip_of_frame hf]
  · exact ⟨tokenAt s.guarded, (cut s.guarded line).symbols, (cutBelow_cut s.guarded line).written,
      strip_eq_write_bare hf h⟩

theorem infix_of_infix_strip {m : Text} (hx : Literal.placeholder ∉ m)
    (hm : m <:+: s.strip line) : m <:+: line := by
  obtain ⟨spelling, symbols, rfl, hs⟩ := exists_strip_eq_write h
  rw [hs] at hm
  exact infix_flatMap_of_passes (Symbol.spell spelling) rfl hx hm

end

end Stripper

/-! ## What marks a line -/

/-- The line holds what begins a line comment, or what begins a block or a remark stands where it
begins one. -/
def Language.Marked (l : Language) (line : Text) : Prop :=
  l.lineMarker <:+: line ∨
    match l with
    | ruby => Rules.Ruby.IsBegin line
    | python => Rules.Python.tripleQuote <:+: line
    | brace => "/*".toList <:+: line
    | basic => Rules.Basic.StartsComment line

instance (l : Language) (line : Text) : Decidable (l.Marked line) :=
  match l with
  | .ruby => inferInstanceAs (Decidable (_ ∨ Rules.Ruby.IsBegin line))
  | .python => inferInstanceAs (Decidable (_ ∨ Rules.Python.tripleQuote <:+: line))
  | .brace => inferInstanceAs (Decidable (_ ∨ "/*".toList <:+: line))
  | .basic => inferInstanceAs (Decidable (_ ∨ Rules.Basic.StartsComment line))

namespace Rules

section
variable (l : Language)

theorem legible_guarded (line : Text) : Stripper.Legible l.rules.stripper.guarded line :=
  Stripper.legible_of_length_le_one (by cases l <;> decide) line

theorem not_infix_strip {marker line : Text} (hx : Literal.placeholder ∉ marker)
    (h : ¬ marker <:+: line) : ¬ marker <:+: l.rules.stripper.strip line :=
  mt (Stripper.infix_of_infix_strip (legible_guarded l line) hx) h

/-- A comment that is all a line holds begins with a marker that may stand anywhere, or is a remark. -/
theorem lineMarker_infix_of_onlyComment {t : Text} (hl : l ≠ .basic)
    (h : l.rules.onlyComment t = true) : l.lineMarker <:+: t := by
  have hs : startsWith l.lineMarker (Text.unindented t) = true := by
    cases l with
    | ruby | python | brace => exact h
    | basic => exact absurd rfl hl
  exact Text.occurs_iff.mp (Brace.occurs_of_startsWith_unindented hs)

end

/-! ## Lines in which nothing is marked -/

section
variable {l : Language} {line : Text} (h : ¬ l.Marked line)
include h

theorem someComment_strip_of_unmarked :
    l.rules.someComment (l.rules.stripper.strip line) = false := by
  have hx : Literal.placeholder ∉ l.lineMarker := by cases l <;> decide
  have hm : ¬ l.lineMarker <:+: line := fun hm => h (Or.inl hm)
  rw [← Bool.not_eq_true, someComment_iff]
  exact not_infix_strip l hx hm

theorem onlyComment_strip_of_unmarked :
    l.rules.onlyComment (l.rules.stripper.strip line) = false := by
  rw [← Bool.not_eq_true]
  intro ho
  by_cases hl : l = .basic
  · subst hl
    have hs : basic.stripper.strip line = Literal.shrink '"' line := Stripper.strip_of_unguarded rfl line
    have hb : basic.onlyComment line = true := by
      rw [← Basic.onlyComment_shrink, ← hs]
      exact ho
    exact h (Or.inr (Basic.onlyComment_iff.mp hb))
  · have hs := someComment_strip_of_unmarked h
    rw [(someComment_iff l _).mpr (lineMarker_infix_of_onlyComment l hl ho)] at hs
    cases hs

theorem not_opened_strip_of_unmarked :
    ∀ block ∈ l.rules.block, block.opened (l.rules.stripper.strip line) = none := by
  have hm := fun hm => h (Or.inr hm)
  cases l with
  | ruby =>
    rintro _ ⟨⟩
    exact Ruby.opened_of_not_begin (mt Ruby.startsWithWord_begin.mp hm)
  | python =>
    rintro _ ⟨⟩
    have ho : ¬ Text.occurs Python.tripleQuote (python.stripper.strip line) = true :=
      mt Text.occurs_iff.mp (not_infix_strip .python (by decide) hm)
    rw [Python.opened_eq, ← Option.not_isSome_iff_eq_none, Text.isSome_replaceFirst?]
    exact ho
  | brace =>
    rintro _ ⟨⟩
    have ho : ¬ Text.occurs "/*".toList (brace.stripper.strip line) = true :=
      mt Text.occurs_iff.mp (not_infix_strip .brace (by decide) hm)
    exact Option.map_eq_none_iff.mpr
      (Brace.opening_eq_none_of_not_occurs (Bool.not_eq_true _ ▸ ho))
  | basic => rintro _ ⟨⟩

end

/-- Stripping brings no text together that holds no placeholder. So outside a block a line in which
nothing is marked is blank or code, and no block is open behind it. -/
theorem strip_infix_and_classify_unmarked (l : Language) :
    (∀ line m : Text, Literal.placeholder ∉ m → m <:+: l.rules.stripper.strip line → m <:+: line) ∧
    ∀ (policy : BlankInBlock) (line : Text), ¬ l.Marked line →
      l.rules.classify policy false line = (if Text.blank line then .blank else .code, false) := by
  constructor
  · intro line m hx hm
    exact Stripper.infix_of_infix_strip (legible_guarded l line) hx hm
  · intro policy line h
    have hk : l.rules.classify policy false line =
        l.rules.kindOutside (l.rules.stripper.strip line) := rfl
    have hp : l.rules.plainKind (l.rules.stripper.strip line) =
        if Text.blank line then .blank else .code := by
      rw [plainKind, onlyComment_strip_of_unmarked h, someComment_strip_of_unmarked h, blank_strip]
      rfl
    rw [hk, kindOutside_of_not_opened (not_opened_strip_of_unmarked h), hp]

theorem strip_infix_and_classify_unmarked_sample :
    let doc := "\"\"\"'#'\"\"\"\" ".toList
    let quotes := "\"\"\"\" ".toList
    let line := "x = /'a'/ y /\"b\"* z".toList
    Literal.placeholder ∉ quotes ∧ quotes <:+: python.stripper.strip doc ∧ quotes <:+: doc ∧
      ¬ Language.brace.Marked line ∧ brace.classify .blank false line = (.code, false) := by
  intro doc quotes line
  have hx : Literal.placeholder ∉ quotes := by decide
  have hq : quotes <:+: python.stripper.strip doc := by decide
  have hm : ¬ Language.brace.Marked line := by decide
  have hc := (strip_infix_and_classify_unmarked .brace).2 .blank line hm
  exact ⟨hx, hq, (strip_infix_and_classify_unmarked .python).1 doc quotes hx hq, hm,
    hc.trans (by decide)⟩

end Rules

end LineCensus
