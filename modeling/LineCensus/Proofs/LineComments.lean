import LineCensus.Proofs.BeginEndBlocks
import LineCensus.Proofs.BlankEnds
import LineCensus.Proofs.TripleQuotes
import Mathlib.Data.List.Infix

/-!
# The text of line comments

What stands behind the marker of a line comment decides nothing, though literals are shrunk and block
markers looked for there as well (`classify_comment`). Python is the exception: a triple quote in a
comment opens a block (`classify_behind_hash`).
-/

namespace LineCensus

/-! ## Texts with a front that says it all -/

namespace Text

theorem after?_append_mark {token : Text} {mark : Char} (hm : mark ∉ token) (t r : Text) :
    after? token (t ++ mark :: r) = (after? token t).map (· ++ mark :: r) := by
  induction token generalizing t with
  | nil => rfl
  | cons p ps ih =>
    rw [List.mem_cons, not_or] at hm
    cases t with
    | nil => exact if_neg (Ne.symm hm.1)
    | cons c t =>
      rw [List.cons_append, after?, after?]
      split
      · exact ih hm.2 t
      · rfl

theorem isSome_after?_append {token s : Text} (h : token.length ≤ s.length) (r : Text) :
    (after? token (s ++ r)).isSome = (after? token s).isSome := by
  induction token generalizing s with
  | nil => rfl
  | cons p ps ih =>
    cases s with
    | nil => cases h
    | cons c s =>
      rw [List.cons_append, after?, after?]
      split
      · exact ih (Nat.le_of_succ_le_succ h)
      · rfl

theorem atWordEnd_append_mark (t r : Text) (mark : Char) :
    atWordEnd (t ++ mark :: r) = atWordEnd (t ++ [mark]) := by
  cases t <;> rfl

end Text

namespace Rules

theorem startsWithWord_append_mark {word : Text} {mark : Char} (hm : mark ∉ word) (t r : Text) :
    startsWithWord word (t ++ mark :: r) = startsWithWord word (t ++ [mark]) := by
  unfold startsWithWord
  rw [Text.after?_append_mark hm, Text.after?_append_mark hm]
  cases Text.after? word t with
  | none => rfl
  | some rest => exact Text.atWordEnd_append_mark rest r mark

end Rules

/-! ## Lines with a marker -/

/-- What begins a comment that runs to the end of its line. -/
def Language.lineMarker : Language → Text
  | ruby | python => ['#']
  | brace => "//".toList
  | basic => ['\'']

namespace Rules

section
variable (l : Language) (u : Text)

theorem someComment_iff (t : Text) : l.rules.someComment t = true ↔ l.lineMarker <:+: t := by
  have hc : ∀ c : Char, t.contains c = true ↔ [c] <:+: t := fun c => by
    rw [List.contains_iff_mem, List.singleton_infix_iff]
  cases l with
  | ruby | python | basic => exact hc _
  | brace => exact Text.occurs_iff

theorem lineMarker_visible : Text.blank l.lineMarker = false ∧
    Text.unindented l.lineMarker = l.lineMarker := by
  cases l <;> decide

theorem blank_append_lineMarker : Text.blank (u ++ l.lineMarker) = false := by
  rw [Text.blank_append, (lineMarker_visible l).1, Bool.and_false]

theorem length_lineMarker_le :
    l.lineMarker.length ≤ (Text.unindented (u ++ l.lineMarker)).length := by
  rw [Text.unindented_append, (lineMarker_visible l).2]
  split
  · exact Nat.le_refl _
  · rw [List.length_append]
    omega

theorem unindented_comment (v : Text) : Text.unindented (u ++ l.lineMarker ++ v) =
    Text.unindented (u ++ l.lineMarker) ++ v := by
  rw [Text.unindented_append, blank_append_lineMarker]
  rfl

theorem startsWith_comment (v : Text) :
    startsWith l.lineMarker (Text.unindented (u ++ l.lineMarker ++ v)) =
      startsWith l.lineMarker (Text.unindented (u ++ l.lineMarker)) := by
  rw [unindented_comment]
  exact Text.isSome_after?_append (length_lineMarker_le l u) v

theorem isRemark_comment (v : Text) :
    Basic.isRemark (Text.unindented (u ++ Language.basic.lineMarker ++ v)) =
      Basic.isRemark (Text.unindented (u ++ Language.basic.lineMarker)) := by
  obtain ⟨w, hw⟩ : ∃ w, Text.unindented (u ++ ['\'']) = w ++ ['\''] := by
    rw [Text.unindented_append]
    split
    · exact ⟨[], by decide⟩
    · exact ⟨Text.unindented u, rfl⟩
  rw [unindented_comment, show Language.basic.lineMarker = ['\''] from rfl, hw, List.append_assoc,
    Bool.eq_iff_iff, Basic.isRemark_iff, Basic.isRemark_iff]
  refine exists_congr fun word => and_congr_right fun hl => ?_
  have hm : '\'' ∉ word := fun hm => absurd (Basic.toLower_mem_of_mem hl hm) (by decide)
  rw [List.singleton_append, startsWithWord_append_mark hm]

theorem onlyComment_comment (v : Text) : l.rules.onlyComment (u ++ l.lineMarker ++ v) =
    l.rules.onlyComment (u ++ l.lineMarker) := by
  cases l with
  | ruby => exact startsWith_comment .ruby u v
  | python => exact startsWith_comment .python u v
  | brace => exact startsWith_comment .brace u v
  | basic =>
    exact congrArg₂ (· || ·) (startsWith_comment .basic u v) (isRemark_comment u v)

theorem someComment_comment (v : Text) :
    l.rules.someComment (u ++ l.lineMarker ++ v) = true :=
  (someComment_iff l _).mpr ⟨u, v, rfl⟩

end

theorem hasComment_kindOutside {rules : Rules} {t : Text} (hb : Text.blank t = false)
    (hs : rules.someComment t = true) : (rules.kindOutside t).1.hasComment = true := by
  rw [kindOutside_eq]
  split
  · rw [plainKind, hb, hs]
    cases rules.onlyComment t <;> rfl
  · next code _ _ => cases code <;> rfl

/-! ## Blocks behind a line comment -/

theorem Ruby.opens?_eq (t : Text) : Ruby.block.opens? t =
    if startsWithWord "=begin".toList t then some (false, false) else none := by
  have ho : Ruby.block.opened t = Ruby.opened t := rfl
  rw [BlockRules.opens?, ho]
  split
  · next h =>
    obtain ⟨rest, hr, hc⟩ := Ruby.exists_opened_of_begin h
    rw [hr, Option.map_some, hc]
    rfl
  · next h => rw [Ruby.opened_of_not_begin h, Option.map_none]

theorem Ruby.opens?_comment (u v : Text) :
    Ruby.block.opens? (u ++ '#' :: v) = Ruby.block.opens? (u ++ ['#']) := by
  rw [Ruby.opens?_eq, Ruby.opens?_eq, startsWithWord_append_mark (by decide)]

/-- The first slash of the marker may follow another one: the two of them begin the comment then. -/
theorem Brace.opening_comment {u : Text} (h : Text.occurs "/*".toList u = false) (v : Text) :
    Brace.opening (u ++ '/' :: '/' :: v) = none := by
  fun_induction Brace.opening u with
  | case1 => rfl
  | case2 r => simp [Text.occurs, Text.after?] at h
  | case3 r => rfl
  | case4 c r hb hl ih =>
    have hr : Text.occurs "/*".toList r = false := by
      rw [Text.occurs, Bool.or_eq_false_iff] at h
      exact h.2
    cases r with
    | nil =>
      by_cases hc : c = '/'
      · rw [hc]; rfl
      · rw [List.singleton_append, Brace.opening.eq_4 _ _ (fun _ e => absurd e hc)
          fun _ e => absurd e hc]
        rfl
    | cons a r =>
      rw [List.cons_append, Brace.opening.eq_4, ih hr]
      · intro tail e he
        exact hb r e (by rw [(List.cons.inj he).1])
      · intro tail e he
        exact hl r e (by rw [(List.cons.inj he).1])

theorem Brace.opens?_comment {u : Text} (h : Text.occurs "/*".toList u = false) (v : Text) :
    Brace.block.opens? (u ++ '/' :: '/' :: v) = none := by
  have ho : Brace.block.opened (u ++ '/' :: '/' :: v) = none :=
    Option.map_eq_none_iff.mpr (Brace.opening_comment h v)
  rw [BlockRules.opens?, ho, Option.map_none]

section
variable {l : Language} (hl : l ≠ .python) {u : Text}
include hl

theorem strip_comment (hd : ∀ k ∈ l.rules.stripper.literals, k.delimiter ∉ u) (v : Text) :
    l.rules.stripper.strip (u ++ l.lineMarker ++ v) =
      u ++ l.lineMarker ++ l.rules.stripper.shrinkAll v := by
  have hg : l.rules.stripper.guarded = [] := by
    cases l with
    | python => exact absurd rfl hl
    | ruby | brace | basic => rfl
  have hm : ∀ k ∈ l.rules.stripper.literals, k.delimiter ∉ l.lineMarker := by
    cases l <;> decide
  rw [Stripper.strip_of_unguarded hg, Stripper.shrinkAll_append_front]
  intro k hk
  rw [List.mem_append, not_or]
  exact ⟨hd k hk, hm k hk⟩

theorem opens?_comment (hb : l = .brace → Text.occurs "/*".toList u = false) (v : Text) :
    ∀ block ∈ l.rules.block,
      block.opens? (u ++ l.lineMarker ++ v) = block.opens? (u ++ l.lineMarker) := by
  rw [List.append_assoc]
  cases l with
  | ruby => rintro _ ⟨⟩; exact Ruby.opens?_comment u v
  | python => exact absurd rfl hl
  | brace =>
    rintro _ ⟨⟩
    exact (Brace.opens?_comment (hb rfl) v).trans (Brace.opens?_comment (hb rfl) []).symm
  | basic => rintro _ ⟨⟩

/-- Outside a block, what follows the marker of a line comment changes neither the kind of a line nor
what is open behind it, if no literal and no block begins before the marker. The line counts as a
comment, alone or with code. -/
theorem classify_comment (hd : ∀ k ∈ l.rules.stripper.literals, k.delimiter ∉ u)
    (hb : l = .brace → Text.occurs "/*".toList u = false) (policy : BlankInBlock) (v : Text) :
    l.rules.classify policy false (u ++ l.lineMarker ++ v) =
        l.rules.classify policy false (u ++ l.lineMarker) ∧
      (l.rules.classify policy false (u ++ l.lineMarker)).1.hasComment = true := by
  have hn : l.rules.stripper.strip (u ++ l.lineMarker) = u ++ l.lineMarker := by
    have hs := strip_comment hl hd []
    have he : l.rules.stripper.shrinkAll [] = [] := by cases l <;> rfl
    rwa [he, List.append_nil] at hs
  have hs : l.rules.someComment (u ++ l.lineMarker) = true := by
    have hs := someComment_comment l u []
    rwa [List.append_nil] at hs
  have hk : ∀ line, l.rules.classify policy false line =
      l.rules.kindOutside (l.rules.stripper.strip line) := fun _ => rfl
  rw [hk, hk, strip_comment hl hd, hn]
  refine ⟨AlikeOutside.kindOutside_eq ?_, hasComment_kindOutside (blank_append_lineMarker l u) hs⟩
  exact
    { blank := by rw [Text.blank_append, blank_append_lineMarker, Bool.false_and]
      onlyComment := onlyComment_comment l u _
      someComment := by rw [someComment_comment, hs]
      opens := opens?_comment hl hb _ }

end

theorem classify_comment_sample :
    let u := "x = a /".toList
    let v := " it's /* \" // */ \"/*".toList
    (∀ k ∈ Language.brace.rules.stripper.literals, k.delimiter ∉ u) ∧
      Text.occurs "/*".toList u = false ∧
      brace.classify .blank false (u ++ "//".toList ++ v) = (.mixed, false) := by
  intro u v
  have hd : ∀ k ∈ Language.brace.rules.stripper.literals, k.delimiter ∉ u := by decide
  have hb : Text.occurs "/*".toList u = false := by decide
  obtain ⟨hk, -⟩ := classify_comment (l := .brace) (by decide) hd (fun _ => hb) .blank v
  exact ⟨hd, hb, hk.trans (by decide)⟩

/-! ## Triple quotes in comments -/

namespace Python

theorem kindOutside_eq (t : Text) : python.kindOutside t =
    if tripleQuotes t = 0 then (python.plainKind t, false)
    else (.comment, decide (tripleQuotes t = 1)) := by
  have hb : python.block.bind (fun block => block.opens? t) = block.opens? t := rfl
  rw [Rules.kindOutside_eq, hb, BlockRules.opens?]
  cases ho : block.opened t with
  | none => rw [Option.map_none, tripleQuotes_opened_none ho, if_pos rfl]
  | some rest =>
    have hc : block.codeBefore t = false := rfl
    rw [Option.map_some, tripleQuotes_opened ho, if_neg (Nat.succ_ne_zero _), hc, closes_eq]
    simp

section
variable {u : Text} (hs : '\'' ∉ u) (hd : '"' ∉ u)
include hs hd

theorem delimiter_not_mem_comment : ∀ l ∈ python.stripper.literals, l.delimiter ∉ u ++ ['#'] := by
  have hm : ∀ l ∈ python.stripper.literals, l.delimiter ∉ ['#'] := by decide
  intro l hl
  rw [List.mem_append, not_or]
  refine ⟨?_, hm l hl⟩
  rcases List.mem_pair.mp hl with rfl | rfl
  · exact hs
  · exact hd

theorem shrinkAll_comment (v : Text) : python.stripper.shrinkAll (u ++ '#' :: v) =
    u ++ '#' :: python.stripper.shrinkAll v := by
  have ha := Stripper.shrinkAll_append_front (delimiter_not_mem_comment hs hd) v
  rwa [List.append_assoc, List.append_assoc] at ha

/-- Literals are looked for behind the marker, with triple quotes hidden or, where the front holds the
character that frames masks, not hidden. -/
theorem exists_strip_comment (v : Text) :
    ∃ v', python.stripper.strip (u ++ '#' :: v) = u ++ '#' :: v' := by
  by_cases hf : Stripper.frame ∈ u
  · refine ⟨python.stripper.shrinkAll v, ?_⟩
    rw [Stripper.strip_of_frame (List.mem_append_left _ hf)]
    exact shrinkAll_comment hs hd v
  · refine ⟨python.stripper.strip v, ?_⟩
    have ha : python.stripper.strip (u ++ ['#'] ++ v) =
        u ++ ['#'] ++ python.stripper.strip v := by
      apply Stripper.strip_append_front
      · exact delimiter_not_mem_comment hs hd
      · intro token ht
        rw [List.mem_singleton.mp ht]
        exact ⟨'"', ['"', '"'], rfl, by simpa using hd⟩
      · simpa using ⟨hf, by decide⟩
    rwa [List.append_assoc, List.append_assoc] at ha

theorem strip_hash : python.stripper.strip (u ++ ['#']) = u ++ ['#'] := by
  have hq : '"' ∉ u ++ ['#'] := by simpa using hd
  have ho : ∀ token ∈ python.stripper.guarded, Text.occurs token (u ++ ['#']) = false := by
    intro token ht
    rw [List.mem_singleton.mp ht, ← Bool.not_eq_true]
    exact fun ho => hq (Text.mem_of_occurs ho (List.mem_cons_self ..))
  exact (Stripper.strip_of_no_token ho).trans (shrinkAll_comment hs hd [])

theorem delimiters_hash : delimiters (u ++ ['#']) = 0 := by
  rw [delimiters, strip_hash hs hd, tripleQuotes, List.count_eq_zero]
  intro hm
  have hq : '"' ∈ u ++ ['#'] := Text.mem_of_occurs (occurs_of_token_mem hm) (List.mem_cons_self ..)
  exact hd (by simpa using hq)

end

theorem plainKind_comment {u : Text} (hm : '#' ∉ u) (v : Text) :
    python.plainKind (u ++ '#' :: v) = if Text.blank u then .comment else .mixed := by
  have hb : Text.blank (u ++ '#' :: v) = false :=
    Text.blank_eq_false_of_mem (List.mem_append_right _ (List.mem_cons_self ..)) (by decide)
  have hs : python.someComment (u ++ '#' :: v) = true := by simp [python]
  have ho : python.onlyComment (u ++ '#' :: v) = Text.blank u := by
    show startsWith ['#'] (Text.unindented (u ++ '#' :: v)) = Text.blank u
    rw [Text.unindented_append]
    have hu := Text.blank_eq_isEmpty_unindented u
    have hm' := Brace.not_mem_unindented hm
    cases h : Text.unindented u with
    | nil => rw [hu, h]; rfl
    | cons c r =>
      rw [h, List.mem_cons, not_or] at hm'
      rw [hu, h]
      simp [startsWith, Text.after?, hm'.1]
  rw [plainKind, hb, ho, hs]
  rfl

section
variable (policy : BlankInBlock)

theorem classify_outside (line : Text) : python.classify policy false line =
    if delimiters line = 0 then (python.plainKind (python.stripper.strip line), false)
    else (.comment, decide (delimiters line = 1)) :=
  kindOutside_eq (python.stripper.strip line)

/-- Outside a block, a line with a `#` and no quote before it counts as it would without what follows
the `#`, unless a triple quote there is left when literals are shrunk. One opens a block and two or more
open and close one, so the line counts as a comment only; that is the same exactly if a block is closed
again and nothing but blanks stands before the `#`. -/
theorem classify_behind_hash {u : Text} (hs : '\'' ∉ u) (hd : '"' ∉ u) (hm : '#' ∉ u) (v : Text) :
    let line := u ++ '#' :: v
    let bare : LineKind × Bool := (if Text.blank u then .comment else .mixed, false)
    python.classify policy false (u ++ ['#']) = bare ∧
      python.classify policy false line = (if delimiters line = 0 then bare
        else (.comment, decide (delimiters line = 1))) ∧
      (python.classify policy false line = bare ↔
        delimiters line = 0 ∨ Text.blank u = true ∧ 2 ≤ delimiters line) := by
  intro line bare
  have hbare : python.classify policy false (u ++ ['#']) = bare := by
    rw [classify_outside, if_pos (delimiters_hash hs hd), strip_hash hs hd, plainKind_comment hm]
  have hline : python.classify policy false line = (if delimiters line = 0 then bare
      else (.comment, decide (delimiters line = 1))) := by
    obtain ⟨v', hv⟩ := exists_strip_comment hs hd v
    rw [classify_outside, show python.stripper.strip line = u ++ '#' :: v' from hv,
      plainKind_comment hm]
  refine ⟨hbare, hline, ?_⟩
  rw [hline]
  by_cases h0 : delimiters line = 0
  · simp [h0]
  · have h2 : ¬ delimiters line = 1 ↔ 2 ≤ delimiters line := by omega
    cases hb : Text.blank u <;> simp [bare, h0, h2, hb]

end

theorem classify_behind_hash_sample :
    let u := "x = 1 ".toList
    let v := " \"it\" '\"\"\"' \"".toList
    '\'' ∉ u ∧ '"' ∉ u ∧ '#' ∉ u ∧ python.classify .blank false (u ++ '#' :: v) = (.mixed, false) := by
  intro u v
  have hs : '\'' ∉ u := by decide
  have hd : '"' ∉ u := by decide
  have hm : '#' ∉ u := by decide
  obtain ⟨-, -, hiff⟩ := classify_behind_hash .blank hs hd hm v
  exact ⟨hs, hd, hm, hiff.mpr (by decide)⟩

/-- A triple quote in a comment opens a block, and the code before the comment does not count. -/
theorem comment_opens_block :
    let u := "x = 1 ".toList
    let v := " \"\"\"".toList
    '\'' ∉ u ∧ '"' ∉ u ∧ '#' ∉ u ∧ '\n' ∉ u ++ v ∧
      python.classify .blank false (u ++ '#' :: v) = (.comment, true) ∧
      python.classify .blank false (u ++ ['#']) = (.mixed, false) := by
  decide

end Python

end Rules

end LineCensus
