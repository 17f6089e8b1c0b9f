import LineCensus.Proofs.RunCounts
import LineCensus.Proofs.Shrinking
import LineCensus.Proofs.TextSearch
import LineCensus.Rules
import Mathlib.Algebra.Ring.Parity
import Mathlib.Data.List.DropRight

/-!
# Triple quotes

The Python rules hide triple quotes behind masks while literals shrink, and look for the masks
again afterwards. `strip_eq_write`: this is the same as cutting the line into triple quotes and
single characters once and shrinking the literals of that sequence.

A line with at most one triple quote turns a block on or off with it; a line with more of them ends
outside, whatever their number. So a block is open behind a run exactly if the lines since the last
such line hold an odd number of triple quotes (`exists_feedAll?_python`).
-/

namespace LineCensus.Rules.Python

open Literal

/-! ## Lines in pieces -/

inductive Piece
  | token
  | char (c : Char)
  deriving DecidableEq, Repr

def cut : Text → List Piece
  | '"' :: '"' :: '"' :: r => .token :: cut r
  | c :: r => .char c :: cut r
  | [] => []

/-- The characters of the pieces, with `token` for each triple quote. -/
def write (token : Text) : List Piece → Text
  | [] => []
  | .token :: r => token ++ write token r
  | .char c :: r => c :: write token r

theorem mem_of_mem_cut {c : Char} {t : Text} (h : .char c ∈ cut t) : c ∈ t := by
  fun_induction cut t with
  | case1 r ih =>
    rcases List.mem_cons.mp h with h | h
    · cases h
    · exact List.mem_cons_of_mem _ (List.mem_cons_of_mem _ (List.mem_cons_of_mem _ (ih h)))
  | case2 e r _ ih =>
    rcases List.mem_cons.mp h with h | h
    · cases h; exact List.mem_cons_self ..
    · exact List.mem_cons_of_mem _ (ih h)
  | case3 => cases h

/-! ## Masks are written pieces -/

theorem tripleQuote_ne_nil : tripleQuote ≠ [] := by decide

theorem not_startsWith_tripleQuote {c : Char} {r : Text}
    (h : ∀ r', c = '"' → r = '"' :: '"' :: r' → False) : ¬ tripleQuote <+: c :: r := by
  rintro ⟨rest, he⟩
  have he : '"' :: '"' :: '"' :: rest = c :: r := he
  simp only [List.cons.injEq] at he
  exact h rest he.1.symm he.2.symm

theorem replace_tripleQuote (other t : Text) :
    Text.replace tripleQuote other t = write other (cut t) := by
  fun_induction cut t with
  | case1 r ih =>
    rw [write, ← ih]
    exact Text.replace_token_append other tripleQuote_ne_nil r
  | case2 c r h ih =>
    rw [write, ← ih, Text.replace_cons other tripleQuote_ne_nil (not_startsWith_tripleQuote h)]
  | case3 => exact Text.replace_nil other tripleQuote_ne_nil

theorem write_cut (t : Text) : write tripleQuote (cut t) = t := by
  fun_induction cut t with
  | case1 r ih => rw [write, ih]; rfl
  | case2 c r _ ih => rw [write, ih]
  | case3 => rfl

def Piece.text (token : Text) : Piece → Text
  | .token => token
  | .char c => [c]

theorem write_eq_flatMap (token : Text) : ∀ ps : List Piece,
    write token ps = ps.flatMap (Piece.text token)
  | [] => rfl
  | .token :: r => by rw [write, write_eq_flatMap token r]; rfl
  | .char c :: r => by rw [write, write_eq_flatMap token r]; rfl

theorem spelling_text {d : Char} {m : Text} (hl : d ≠ '\n') (hd : d ∉ m) (hn : '\n' ∉ m) :
    Spelling (Piece.text m) (.char d) (.char '\n') d '\n' where
  spell_delimiter := rfl
  spell_stop := rfl
  ne := hl
  other p hpd hpn := by
    cases p with
    | token => exact ⟨hd, hn⟩
    | char c => exact ⟨fun h => hpd (by rw [List.mem_singleton.mp h]),
        fun h => hpn (by rw [List.mem_singleton.mp h])⟩

theorem shrink_write {d : Char} {m : Text} (hl : d ≠ '\n') (hd : d ∉ m) (hn : '\n' ∉ m)
    (ps : List Piece) : shrink d (write m ps) =
      write m (collapse (.char d) (.char '\n') (.char placeholder) ps) := by
  rw [shrink_eq_collapse, write_eq_flatMap, write_eq_flatMap]
  exact collapse_flatMap (spelling_text hl hd hn) rfl ps

theorem replace_mask (i : Nat) (other : Text) : ∀ {ps : List Piece}, .char Stripper.frame ∉ ps →
    Text.replace (Stripper.mask i) other (write (Stripper.mask i) ps) = write other ps
  | [], _ => Text.replace_nil other (Stripper.mask_ne_nil i)
  | .token :: r, h => by
    rw [write, write, Text.replace_token_append other (Stripper.mask_ne_nil i),
      replace_mask i other fun hr => h (List.mem_cons_of_mem _ hr)]
  | .char c :: r, h => by
    have hc : ¬ Stripper.mask i <+: c :: write (Stripper.mask i) r := by
      rintro ⟨rest, he⟩
      rw [Stripper.mask, List.cons_append, List.cons_append, List.cons.injEq] at he
      exact h (by simp [he.1])
    rw [write, write, Text.replace_cons other (Stripper.mask_ne_nil i) hc,
      replace_mask i other fun hr => h (List.mem_cons_of_mem _ hr)]

theorem write_of_no_token (m m' : Text) : ∀ {ps : List Piece}, .token ∉ ps →
    write m ps = write m' ps
  | [], _ => rfl
  | .token :: r, h => absurd (List.mem_cons_self ..) h
  | .char c :: r, h => by
    rw [write, write, write_of_no_token m m' fun hr => h (List.mem_cons_of_mem _ hr)]

theorem occurs_of_token_mem {t : Text} (h : .token ∈ cut t) :
    Text.occurs tripleQuote t = true := by
  fun_induction cut t with
  | case1 r _ =>
    rw [Text.occurs_iff]
    exact ⟨[], r, rfl⟩
  | case2 c r _ ih =>
    rw [Text.occurs, ih (by simpa using h), Bool.or_true]
  | case3 => cases h

/-! ## The stripper -/

/-- Exchanges each part from one single character `d` to the nearest one on the same line for the
placeholder. -/
def pass (d : Char) (ps : List Piece) : List Piece :=
  collapse (.char d) (.char '\n') (.char placeholder) ps

def bare (line : Text) : List Piece :=
  pass '"' (pass '\'' (cut line))

theorem shrinkAll_write (ps : List Piece) :
    python.stripper.shrinkAll (write (Stripper.mask 0) ps) =
      write (Stripper.mask 0) (pass '"' (pass '\'' ps)) := by
  unfold pass
  rw [← shrink_write (by decide) (by decide) (by decide),
    ← shrink_write (by decide) (by decide) (by decide)]
  rfl

theorem mem_bare {p : Piece} {line : Text} (h : p ∈ bare line) :
    p ∈ cut line ∨ p = .char placeholder := by
  rcases mem_collapse h with h | h
  · exact mem_collapse h
  · exact Or.inr h

theorem frame_not_mem_bare {line : Text} (h : Stripper.frame ∉ line) :
    .char Stripper.frame ∉ bare line := by
  intro hf
  rcases mem_bare hf with hf | hf
  · exact h (mem_of_mem_cut hf)
  · exact absurd hf (by decide)

theorem strip_eq_write (line : Text) (h : Stripper.frame ∉ line) :
    python.stripper.strip line = write tripleQuote (bare line) := by
  cases ho : Text.occurs tripleQuote line with
  | true =>
    have hs : python.stripper.strip line = Text.replace (Stripper.mask 0) tripleQuote
        (python.stripper.shrinkAll (Text.replace tripleQuote (Stripper.mask 0) line)) := by
      unfold Stripper.strip
      rw [if_neg (by decide), if_pos]
      · rfl
      · simp [Stripper.masks, python, h, ho]
    rw [hs, replace_tripleQuote, shrinkAll_write]
    exact replace_mask 0 tripleQuote (frame_not_mem_bare h)
  | false =>
    have hs : python.stripper.strip line = python.stripper.shrinkAll line := by
      unfold Stripper.strip
      rw [if_neg (by decide), if_neg]
      simp [Stripper.masks, python, ho]
    have hc : .token ∉ cut line := fun hc => by rw [occurs_of_token_mem hc] at ho; cases ho
    have hb : .token ∉ bare line := fun hb => by
      rcases mem_bare hb with hb | hb
      · exact hc hb
      · cases hb
    rw [hs, write_of_no_token tripleQuote (Stripper.mask 0) hb, bare, ← shrinkAll_write,
      write_of_no_token (Stripper.mask 0) tripleQuote hc, write_cut]

theorem strip_between_tripleQuotes :
    let line := "\"\"\"0\"\"\"\"q\"'#\"\"\"'\"".toList
    Stripper.frame ∉ line ∧ python.stripper.strip line = "\"\"\"0\"\"\"XX\"".toList :=
  ⟨by decide, (strip_eq_write _ (by decide)).trans (by
    simp [bare, pass, cut, collapse, pastNext?, write, tripleQuote, placeholder])⟩

end LineCensus.Rules.Python

namespace LineCensus

/-! ## Replacing the first occurrence -/

/-- What is put in for a token brings nothing to the front but itself. -/
theorem Text.prefix_of_replaceFirst? {token u : Text} {x : Char} (hx : x ∉ u) :
    ∀ {t rest : Text}, replaceFirst? token [x] t = some rest → u <+: rest → u <+: t := by
  induction u with
  | nil => exact fun _ _ => List.nil_prefix
  | cons a u ih =>
    rw [List.mem_cons, not_or] at hx
    have hfront : ∀ s, ¬ a :: u <+: [x] ++ s := by
      rintro s ⟨v, hv⟩
      exact hx.1 (List.cons.inj hv).1.symm
    intro t rest h hu
    cases t with
    | nil =>
      rw [replaceFirst?] at h
      split at h
      · cases h; exact absurd hu (hfront [])
      · cases h
    | cons c r =>
      rw [replaceFirst?] at h
      split at h
      · cases h; exact absurd hu (hfront _)
      · obtain ⟨rest', hr, rfl⟩ := Option.map_eq_some_iff.mp h
        rw [List.cons_prefix_cons] at hu ⊢
        exact ⟨hu.1, ih hx.2 hr hu.2⟩

namespace Rules.Python

/-! ## Triple quotes of one line -/

/-- How many triple quotes a text holds, from the left and without overlap. -/
def tripleQuotes (t : Text) : Nat :=
  (cut t).count .token

theorem tripleQuotes_token (r : Text) : tripleQuotes (tripleQuote ++ r) = tripleQuotes r + 1 := by
  rw [tripleQuotes, show cut (tripleQuote ++ r) = .token :: cut r from rfl, List.count_cons_self,
    tripleQuotes]

theorem tripleQuotes_char {c : Char} {r : Text} (h : ¬ tripleQuote <+: c :: r) :
    tripleQuotes (c :: r) = tripleQuotes r := by
  have hc : cut (c :: r) = .char c :: cut r := by
    rw [cut]
    rintro r' rfl rfl
    exact h ⟨r', rfl⟩
  rw [tripleQuotes, hc, List.count_cons_of_ne (by simp), tripleQuotes]

theorem opened_eq (t : Text) :
    block.opened t = Text.replaceFirst? tripleQuote [Literal.placeholder] t := rfl

theorem closes_eq_isSome_opened (t : Text) : block.closes t = (block.opened t).isSome :=
  (Text.isSome_replaceFirst? tripleQuote [Literal.placeholder] t).symm

theorem tripleQuotes_opened_none {t : Text} (h : block.opened t = none) : tripleQuotes t = 0 := by
  refine List.count_eq_zero.mpr fun hm => ?_
  have ho : block.closes t = true := occurs_of_token_mem hm
  rw [closes_eq_isSome_opened, h] at ho
  cases ho

theorem tripleQuotes_opened {t rest : Text} (h : block.opened t = some rest) :
    tripleQuotes t = tripleQuotes rest + 1 := by
  rw [opened_eq] at h
  induction t generalizing rest with
  | nil => cases h
  | cons c r ih =>
    by_cases hq : tripleQuote <+: c :: r
    · obtain ⟨r', hr⟩ := hq
      rw [← hr] at h ⊢
      rw [show Text.replaceFirst? tripleQuote [Literal.placeholder] (tripleQuote ++ r') =
        some (Literal.placeholder :: r') from rfl] at h
      cases h
      rw [tripleQuotes_token, tripleQuotes_char]
      rintro ⟨s, hs⟩
      exact absurd (List.cons.inj hs).1 (by decide)
    · rw [Text.replaceFirst?] at h
      split at h
      · next rest' ha => exact absurd ⟨rest', (Text.after?_eq_some_iff.mp ha).symm⟩ hq
      · obtain ⟨rest', hr, rfl⟩ := Option.map_eq_some_iff.mp h
        have hq' : ¬ tripleQuote <+: c :: rest' := by
          intro hp
          rw [show tripleQuote = '"' :: ['"', '"'] from rfl, List.cons_prefix_cons] at hp hq
          exact hq ⟨hp.1, Text.prefix_of_replaceFirst? (by decide) hr hp.2⟩
        rw [tripleQuotes_char hq, tripleQuotes_char hq', ih hr]

theorem closes_eq (t : Text) : block.closes t = decide (tripleQuotes t ≠ 0) := by
  rw [closes_eq_isSome_opened]
  cases ho : block.opened t with
  | none => rw [tripleQuotes_opened_none ho]; rfl
  | some rest => rw [tripleQuotes_opened ho]; simp

/-! ## Lines -/

/-- The delimiters of blocks that a line holds: triple quotes outside its literals. -/
def delimiters (line : Text) : Nat :=
  tripleQuotes (python.stripper.strip line)

def delimitersIn (lines : List Text) : Nat :=
  (lines.map delimiters).sum

/-- At most one delimiter: the line opens a block, closes one or does neither. -/
def turns (line : Text) : Bool :=
  delimiters line ≤ 1

theorem delimitersIn_append (lines lines' : List Text) :
    delimitersIn (lines ++ lines') = delimitersIn lines + delimitersIn lines' := by
  rw [delimitersIn, List.map_append, List.sum_append, delimitersIn, delimitersIn]

theorem delimitersIn_singleton (line : Text) : delimitersIn [line] = delimiters line := by
  rw [delimitersIn, List.map_singleton, List.sum_singleton]

/-- A block is open behind a line with one delimiter in all, the one that opened it before the line
counted with it. -/
theorem inside_classify (policy : BlankInBlock) (inside : Bool) (line : Text) :
    (python.classify policy inside line).2 = decide (delimiters line + inside.toNat = 1) := by
  unfold classify delimiters
  generalize python.stripper.strip line = t
  cases inside with
  | true =>
    have hk : (python.kindInside policy t).2 = !block.closes t := by
      unfold kindInside
      rw [show python.block = some block from rfl]
      dsimp only
      rw [show block.codeBehind t = false from rfl, if_neg (by decide)]
      cases block.closes t <;> rfl
    rw [if_pos rfl, hk, closes_eq]
    simp
  | false =>
    have hk : (python.kindOutside t).2 = (block.opened t).any fun rest => !block.closes rest := by
      unfold kindOutside
      rw [show python.block = some block from rfl]
      dsimp only
      cases block.opened t <;> rfl
    rw [if_neg (by decide), hk]
    cases ho : block.opened t with
    | none => rw [tripleQuotes_opened_none ho]; rfl
    | some rest =>
      rw [tripleQuotes_opened ho, Option.any_some, closes_eq]
      simp

/-! ## Runs -/

theorem insideAfter_python (policy : BlankInBlock) (lines : List Text) :
    python.insideAfter policy false lines = decide (Odd (delimitersIn (lines.rtakeWhile turns))) := by
  induction lines using List.reverseRecOn with
  | nil => rfl
  | append_singleton lines line ih =>
    rw [insideAfter_snoc, inside_classify, ih, List.rtakeWhile_concat]
    by_cases h : turns line = true
    · have hle : delimiters line ≤ 1 := by simpa [turns] using h
      rw [if_pos h, delimitersIn_append, delimitersIn_singleton]
      generalize delimitersIn (lines.rtakeWhile turns) = n
      rcases Nat.le_one_iff_eq_zero_or_eq_one.mp hle with hd | hd
      · rw [hd]
        by_cases hn : Odd n <;> simp [hn]
      · rw [hd]
        by_cases hn : Odd n <;> simp [hn, Nat.odd_add_one]
    · have hlt : 1 < delimiters line := by simpa [turns] using h
      rw [if_neg h]
      exact decide_eq_false (by omega)

/-- A block is open behind a run exactly if the lines since the last one with several delimiters hold
an odd number of them. That is the parity of all delimiters exactly if those up to that line are even
in number. -/
theorem exists_feedAll?_python (policy : BlankInBlock) (lines : List Text)
    (h : lines.length < UInt64.size) :
    ∃ t, Tally.start.feedAll? python policy lines = some t ∧
      (t.inside = true ↔ Odd (delimitersIn (lines.rtakeWhile turns))) ∧
      ((t.inside = true ↔ Odd (delimitersIn lines)) ↔ Even (delimitersIn (lines.rdropWhile turns))) := by
  obtain ⟨t, ht, hi⟩ := exists_feedAll?_start python policy h
  have hinside : t.inside = true ↔ Odd (delimitersIn (lines.rtakeWhile turns)) := by
    rw [hi, insideAfter_python, decide_eq_true_iff]
  have htotal : delimitersIn lines =
      delimitersIn (lines.rdropWhile turns) + delimitersIn (lines.rtakeWhile turns) := by
    rw [← delimitersIn_append, List.rdropWhile_append_rtakeWhile]
  refine ⟨t, ht, hinside, ?_⟩
  rw [hinside, htotal, Nat.odd_add, ← Nat.not_even_iff_odd, ← Nat.not_even_iff_odd]
  tauto

theorem exists_feedAll?_python_sample :
    let lines := ["\"\"\"a".toList, "b\"\"\" + \"\"\"c".toList, "d".toList, "\"\"\"".toList]
    lines.length < UInt64.size ∧
    ∃ t, Tally.start.feedAll? python .comment lines = some t ∧ t.inside = true ∧
      ¬ Odd (delimitersIn lines) := by
  intro lines
  have hl : lines.length < UInt64.size := by decide
  obtain ⟨t, ht, hi, -⟩ := exists_feedAll?_python .comment lines hl
  exact ⟨hl, t, ht, hi.mpr (by decide +kernel), by decide +kernel⟩

/-- The third delimiter of a line does not open a block again. -/
theorem three_delimiters_end_outside :
    let line := "\"\"\"a\"\"\"b\"\"\"".toList
    '\n' ∉ line ∧ Odd (delimitersIn [line]) ∧
      (Tally.start.feedAll? python .blank [line]).map Tally.inside = some false := by
  decide +kernel

end Rules.Python

end LineCensus
