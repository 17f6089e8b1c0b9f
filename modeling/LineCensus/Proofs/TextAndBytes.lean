import LineCensus.Line
import LineCensus.Proofs.BlankEnds
import LineCensus.Proofs.Decoding
import LineCensus.Proofs.RunCounts
import LineCensus.Proofs.TextSearch

/-!
# Counting a text and counting its bytes

Bytes are cut into lines before they are decoded, a text is cut as it is. Both cuts come to the parts
between newlines, up to carriage returns at their ends (`lines_eq`, `lines_text`), so a byte string
counts like the text that all of it decodes to (`countBytes?_eq_countLines?`).

Carriage returns are blank, so those at the end of a line change its kind only in one place: a slash
that ends a line behind the close of a block is code only if something follows it. The lines of a text
keep them, those of its bytes do not, and nothing else tells the counts apart
(`countBytes?_encode_eq_iff`).
-/

namespace LineCensus

namespace Text

/-! ## The parts between newlines -/

/-- The parts between newlines. Behind a newline at the end there is none. -/
def parts (t : Text) : List Text :=
  let pieces := splitAt '\n' t
  if pieces.getLast? = some [] then pieces.dropLast else pieces

theorem parts_free {t : Text} (h : '\n' ∉ t) : parts t = if t = [] then [] else [t] := by
  unfold parts
  rw [splitAt_free h]
  cases t <;> simp

theorem parts_cut {t : Text} (h : '\n' ∉ t) (r : Text) : parts (t ++ '\n' :: r) = t :: parts r := by
  unfold parts
  rw [splitAt_cut h]
  dsimp only
  obtain ⟨p, ps, hp⟩ := List.exists_cons_of_ne_nil (splitAt_ne_nil '\n' r)
  rw [hp, List.getLast?_cons_cons, List.dropLast_cons_of_ne_nil (List.cons_ne_nil p ps)]
  split <;> rfl

/-! ## Line ends -/

section
variable {p q : Char → Bool} {t : Text} {c : Char}

theorem dropEnd_snoc_of_pos (h : p c = true) : dropEnd p (t ++ [c]) = dropEnd p t := by
  rw [dropEnd, List.reverse_append, List.reverse_singleton, List.singleton_append,
    List.dropWhile_cons_of_pos h, dropEnd]

theorem dropEnd_congr (h : ∀ c ∈ t, p c = q c) : dropEnd p t = dropEnd q t := by
  have hr : ∀ c ∈ t.reverse, p c = q c := fun c hc => h c (List.mem_reverse.mp hc)
  unfold dropEnd
  generalize t.reverse = r at hr
  induction r with
  | nil => rfl
  | cons a r ih =>
    have ha := hr a (List.mem_cons_self ..)
    cases hp : p a with
    | true =>
      rw [List.dropWhile_cons_of_pos hp, List.dropWhile_cons_of_pos (ha ▸ hp)]
      exact ih fun c hc => hr c (List.mem_cons_of_mem _ hc)
    | false =>
      rw [List.dropWhile_cons_of_neg (by simp [hp]), List.dropWhile_cons_of_neg (by simp [← ha, hp])]

end

def withoutReturns (line : Text) : Text :=
  dropEnd (· == '\r') line

theorem dropEnd_isBreak {t : Text} (h : '\n' ∉ t) : dropEnd isBreak t = withoutReturns t := by
  apply dropEnd_congr
  intro c hc
  have hn : c ≠ '\n' := fun e => h (e ▸ hc)
  simp [isBreak, hn]

theorem withoutBreak_free {t : Text} (h : '\n' ∉ t) : withoutBreak t = t := by
  have hr : '\n' ∉ t.reverse := fun hc => h (List.mem_reverse.mp hc)
  unfold withoutBreak
  split
  · next he => rw [he] at hr; simp at hr
  · next he => rw [he] at hr; simp at hr
  · rfl

theorem withoutReturns_withoutBreak (t : Text) :
    withoutReturns (withoutBreak (t ++ ['\n'])) = withoutReturns t := by
  have hr : (t ++ ['\n']).reverse = '\n' :: t.reverse := by simp
  unfold withoutBreak
  rw [hr]
  split
  · next r he =>
    rw [List.cons.injEq] at he
    have ht : t = r.reverse ++ ['\r'] := by rw [← List.reverse_inj]; simp [he.2]
    rw [ht, withoutReturns, withoutReturns, dropEnd_snoc_of_pos rfl]
  · next r _ he =>
    rw [List.cons.injEq] at he
    rw [← he.2, List.reverse_reverse]
  · next h => exact absurd rfl (h t.reverse)

theorem lines_text (t : Text) : (lines t).map withoutReturns = (parts t).map withoutReturns := by
  unfold lines
  induction t using mark_induction '\n' with
  | free t h =>
    rw [cutBehind_free h, parts_free h]
    split
    · rfl
    · rw [List.map_singleton, withoutBreak_free h]
  | cut t r h ih =>
    rw [cutBehind_cut h, parts_cut h, List.map_cons, List.map_cons, List.map_cons, ih,
      withoutReturns_withoutBreak]

end Text

/-- What is cut at newline bytes and then decoded is the decoded text cut at its newlines. -/
theorem Bytes.lines_eq (bytes : Bytes) :
    Bytes.lines bytes = (Text.parts (Utf8.decode bytes)).map Text.withoutReturns := by
  unfold Bytes.lines
  induction bytes using Text.mark_induction (0x0A : UInt8) with
  | free l h =>
    have hn : '\n' ∉ Utf8.decode l := Utf8.ascii_not_mem_decode (by decide) (by decide) h
    rw [Text.cutBehind_free h, Text.parts_free hn]
    by_cases hl : l = []
    · rw [if_pos hl, hl]; rfl
    · rw [if_neg hl, if_neg (Utf8.decode_ne_nil hl), List.map_singleton, List.map_singleton,
        Text.dropEnd_isBreak hn]
  | cut l r h ih =>
    have hn : '\n' ∉ Utf8.decode l := Utf8.ascii_not_mem_decode (by decide) (by decide) h
    have hd : Utf8.decode (l ++ [0x0A]) = Utf8.decode l ++ ['\n'] :=
      Utf8.decode_append_ascii (by decide) l []
    have hr : Utf8.decode (l ++ 0x0A :: r) = Utf8.decode l ++ '\n' :: Utf8.decode r :=
      Utf8.decode_append_ascii (by decide) l r
    rw [Text.cutBehind_cut h, hr, Text.parts_cut hn, List.map_cons, List.map_cons, ih, hd,
      Text.dropEnd_snoc_of_pos rfl, Text.dropEnd_isBreak hn]

/-- Decoding line by line counts what decoding the whole and cutting it at its newlines counts. -/
theorem countBytes?_eq_countLines? (rules : Rules) (policy : BlankInBlock) (bytes : Bytes) :
    countBytes? rules policy bytes =
      countLines? rules policy ((Text.parts (Utf8.decode bytes)).map Text.withoutReturns) := by
  rw [countBytes?, Bytes.lines_eq]

/-! ## Carriage returns at the end of a line -/

namespace Text

def Returns (u : Text) : Prop :=
  ∀ c ∈ u, c = '\r'

theorem blank_returns {u : Text} (hu : Returns u) : blank u = true := by
  rw [blank, List.all_eq_true]
  intro c hc
  rw [hu c hc]
  decide

theorem exists_returns (line : Text) : ∃ u, Returns u ∧ line = withoutReturns line ++ u ∧
    (u ≠ [] ↔ line.getLast? = some '\r') := by
  have hs := List.takeWhile_append_dropWhile (p := (· == '\r')) (l := line.reverse)
  have hl : line = withoutReturns line ++ (line.reverse.takeWhile (· == '\r')).reverse := by
    rw [withoutReturns, dropEnd, ← List.reverse_append, hs, List.reverse_reverse]
  refine ⟨(line.reverse.takeWhile (· == '\r')).reverse, fun c hc => ?_, hl, ?_⟩
  · have ha := List.all_takeWhile (p := (· == '\r')) (l := line.reverse)
    simpa using List.all_eq_true.mp ha c (List.mem_reverse.mp hc)
  · rw [← List.head?_reverse]
    cases line.reverse with
    | nil => simp
    | cons c r => by_cases hc : c = '\r' <;> simp [hc]

end Text

namespace Rules

/-! ## A slash at the end -/

namespace Brace

theorem startsWithCode_of_ne {t r : Text} {c : Char} (h : Text.unindented t = c :: r)
    (hc : c ≠ '/') : startsWithCode t = true := by
  unfold startsWithCode
  rw [h]
  split <;> simp_all

theorem startsWithCode_append_blank {u : Text} (hu : Text.blank u = true) (t : Text) :
    startsWithCode (t ++ u) =
      (startsWithCode t || (!u.isEmpty && Text.unindented t == ['/'])) := by
  rcases Text.unindented_append_blank hu t with ⟨ht, htu⟩ | ⟨c, r, ht, htu⟩
  · rw [startsWithCode, startsWithCode, ht, htu]
    simp
  by_cases hc : c = '/'
  · subst hc
    rw [startsWithCode, startsWithCode, ht, htu]
    cases r with
    | nil =>
      cases u with
      | nil => rfl
      | cons d v =>
        have hd : d ≠ '/' := by
          rintro rfl
          exact Text.not_mem_of_blank hu (by decide) (List.mem_cons_self ..)
        simp [hd]
    | cons d r => simp
  · rw [startsWithCode_of_ne ht hc, startsWithCode_of_ne htu hc]
    rfl

/-- Behind some `*/` stand blanks and one slash, and then nothing. -/
def endsInSlash : Text → Bool
  | [] => false
  | '*' :: '/' :: r => Text.unindented r == ['/'] || endsInSlash r
  | _ :: r => endsInSlash r

theorem occurs_of_endsInSlash {t : Text} (h : endsInSlash t = true) :
    Text.occurs "*/".toList t = true := by
  fun_induction endsInSlash t with
  | case1 => cases h
  | case2 r _ => simp [Text.occurs, Text.after?]
  | case3 c r _ ih => rw [Text.occurs, ih h, Bool.or_true]

theorem codeBehind_append_blank {u : Text} (hu : Text.blank u = true) (t : Text) :
    codeBehind (t ++ u) = (codeBehind t || (!u.isEmpty && endsInSlash t)) := by
  fun_induction codeBehind t with
  | case1 =>
    rw [List.nil_append, endsInSlash, Bool.and_false, Bool.or_false]
    exact codeBehind_of_not_occurs
      (Text.occurs_tail (Text.disjoint_of_blank hu (by decide)) (by decide))
  | case2 r ih =>
    rw [List.cons_append, List.cons_append, codeBehind, endsInSlash, ih,
      startsWithCode_append_blank hu]
    cases startsWithCode r <;> cases codeBehind r <;> cases u.isEmpty <;> simp
  | case3 c r hc ih =>
    rw [List.cons_append, codeBehind.eq_3, endsInSlash.eq_3 c r hc, ih]
    intro r' hs
    exact append_blank_ne hu (by decide) (fun r' => hc r' hs) r'

end Brace

/-! ## One line -/

/-- The one slash behind the close of a block is followed by carriage returns and nothing else. -/
def Brace.slashBeforeReturn (line : Text) : Bool :=
  let t := brace.stripper.strip (Text.withoutReturns line)
  line.getLast? == some '\r' && endsInSlash t && !codeBehind t

theorem strip_eq_append (l : Language) {line u : Text} (hu : Text.Returns u)
    (hl : line = Text.withoutReturns line ++ u) : l.rules.stripper.strip line =
      l.rules.stripper.strip (Text.withoutReturns line) ++ u := by
  rw [← strip_append_blank l (Text.blank_returns hu), ← hl]

section
variable (policy : BlankInBlock) {inside : Bool} {line : Text}

theorem classify_of_visible (l : Language)
    (hv : l = .brace → inside = true → Brace.slashBeforeReturn line = false) :
    l.rules.classify policy inside line =
      l.rules.classify policy inside (Text.withoutReturns line) := by
  obtain ⟨u, hu, hl, hn⟩ := Text.exists_returns line
  have hb := Text.blank_returns hu
  unfold classify
  rw [strip_eq_append l hu hl]
  cases inside with
  | false => exact (alikeOutside_append_blank l hb _).kindOutside_eq
  | true =>
    refine AlikeInside.kindInside_eq ?_ policy
    by_cases hbrace : l = .brace
    · subst hbrace
      refine ⟨Text.blank_append_blank hb _, closes_append_blank .brace hb _, ?_⟩
      rintro _ ⟨⟩
      have hs := hv rfl rfl
      simp only [Brace.slashBeforeReturn] at hs
      show Brace.codeBehind (brace.stripper.strip (Text.withoutReturns line) ++ u) =
        Brace.codeBehind (brace.stripper.strip (Text.withoutReturns line))
      generalize brace.stripper.strip (Text.withoutReturns line) = t at hs ⊢
      rw [Brace.codeBehind_append_blank hb]
      by_cases he : u = []
      · rw [he]; simp
      · rw [hn.mp he] at hs
        cases hc : Brace.codeBehind t with
        | true => rfl
        | false =>
          have hslash : Brace.endsInSlash t = false := by simpa [hc] using hs
          rw [hslash, Bool.and_false]
          rfl
    · exact alikeInside_append_blank hb hbrace _

theorem classify_of_slashBeforeReturn (h : Brace.slashBeforeReturn line = true) :
    brace.classify policy true line = (.blockMixed, false) ∧
      brace.classify policy true (Text.withoutReturns line) = (.comment, false) := by
  obtain ⟨u, hu, hl, hn⟩ := Text.exists_returns line
  have hs : brace.stripper.strip line = brace.stripper.strip (Text.withoutReturns line) ++ u :=
    strip_eq_append .brace hu hl
  simp only [Brace.slashBeforeReturn, Bool.and_eq_true, beq_iff_eq, Bool.not_eq_true'] at h
  obtain ⟨⟨hlast, hslash⟩, hcode⟩ := h
  unfold classify
  rw [hs]
  generalize brace.stripper.strip (Text.withoutReturns line) = t at hslash hcode ⊢
  have hb : Brace.codeBehind (t ++ u) = true := by
    rw [Brace.codeBehind_append_blank (Text.blank_returns hu), hslash, Bool.and_true]
    simp [hn.mpr hlast]
  constructor
  · simp [kindInside, brace, Brace.block, hb]
  · have ho := Brace.occurs_of_endsInSlash hslash
    simpa [kindInside, brace, Brace.block, hcode] using ho

end

end Rules

open Rules

/-- How many lines of a run hold code in one slash alone, behind the close of the block they are met
in and before carriage returns. -/
def lostSlashes (l : Language) (policy : BlankInBlock) : Bool → List Text → Nat
  | _, [] => 0
  | inside, line :: lines =>
    (if l = .brace ∧ inside = true ∧ Brace.slashBeforeReturn line = true then 1 else 0) +
      lostSlashes l policy (l.rules.classify policy inside line).2 lines

section
variable (l : Language) (policy : BlankInBlock)

/-- One line leaves a block as it would without its carriage returns, and counts the same but for
the slash. -/
theorem classify_withoutReturns (inside : Bool) (line : Text) :
    (l.rules.classify policy inside line).2 =
        (l.rules.classify policy inside (Text.withoutReturns line)).2 ∧
      ∀ column, (l.rules.classify policy inside line).1.counts.get column =
        (l.rules.classify policy inside (Text.withoutReturns line)).1.counts.get column +
          if column = .code ∧ l = .brace ∧ inside = true ∧ Brace.slashBeforeReturn line = true
          then 1 else 0 := by
  by_cases h : l = .brace ∧ inside = true ∧ Brace.slashBeforeReturn line = true
  · obtain ⟨rfl, rfl, hs⟩ := h
    obtain ⟨ht, hb⟩ := classify_of_slashBeforeReturn policy hs
    rw [show Language.brace.rules = brace from rfl, ht, hb]
    refine ⟨rfl, fun column => ?_⟩
    rw [hs]
    cases column <;> decide
  · have hv : l = .brace → inside = true → Brace.slashBeforeReturn line = false :=
      fun hl hi => Bool.not_eq_true _ ▸ fun hs => h ⟨hl, hi, hs⟩
    rw [← classify_of_visible policy l hv]
    refine ⟨rfl, fun column => ?_⟩
    rw [if_neg fun hc => h hc.2, Nat.add_zero]

theorem sum_kindsOf_withoutReturns (column : Counts.Column) (inside : Bool) (lines : List Text) :
    LineKind.sum column (l.rules.kindsOf policy inside lines) =
      LineKind.sum column (l.rules.kindsOf policy inside (lines.map Text.withoutReturns)) +
        if column = .code then lostSlashes l policy inside lines else 0 := by
  induction lines generalizing inside with
  | nil => simp [lostSlashes]
  | cons line lines ih =>
    obtain ⟨hi, hc⟩ := classify_withoutReturns l policy inside line
    rw [kindsOf_cons, List.map_cons, kindsOf_cons, LineKind.sum_cons, LineKind.sum_cons, hc column,
      ih, ← hi, lostSlashes]
    by_cases hk : column = .code
    · simp only [hk, true_and, if_true]
      omega
    · simp only [hk, false_and, if_false]
      omega

theorem countBytes?_encode (t : Text) : countBytes? l.rules policy (Utf8.encode t) =
    countLines? l.rules policy ((Text.lines t).map Text.withoutReturns) := by
  rw [countBytes?, Bytes.lines_eq, Utf8.decode_encode, Text.lines_text]

/-- The bytes of a text count like the text unless a slash is lost before a counter overflows. -/
theorem countBytes?_encode_eq_iff (t : Text) :
    countBytes? l.rules policy (Utf8.encode t) = countText? l.rules policy t ↔
      lostSlashes l policy false (Text.lines t) = 0 ∨ UInt64.size ≤ (Text.lines t).length := by
  have hsum := fun column =>
    sum_kindsOf_withoutReturns l policy column false (Text.lines t)
  rw [countBytes?_encode, countText?]
  constructor
  · intro he
    by_cases ho : UInt64.size ≤ (Text.lines t).length
    · exact Or.inr ho
    refine Or.inl ?_
    rw [← countLines?_eq_none_iff l.rules policy] at ho
    obtain ⟨c, hc⟩ := Option.ne_none_iff_exists'.mp ho
    rw [hc] at he
    rw [countLines?_eq_sum?, Counts.sum?_eq_some_iff] at hc he
    have ht := hc .code
    have hb := he .code
    rw [LineKind.map_get_counts] at ht hb
    have hs := hsum .code
    rw [if_pos rfl, ← ht, ← hb] at hs
    omega
  · rintro (hz | ho)
    · rw [countLines?_eq_sum?, countLines?_eq_sum?]
      apply Counts.sum?_congr
      intro column
      rw [LineKind.map_get_counts, LineKind.map_get_counts, hsum column, hz, ite_self,
        Nat.add_zero]
    · rw [(countLines?_eq_none_iff _ _).mpr ho,
        (countLines?_eq_none_iff _ _).mpr (by rw [List.length_map]; exact ho)]

end

/-- A slash that only the text counts as code. -/
theorem countBytes?_encode_ne :
    let t := "/*\n*/ /\r".toList
    countText? brace .blank t = some ⟨1, 2, 0, 2⟩ ∧
      countBytes? brace .blank (Utf8.encode t) = some ⟨0, 2, 0, 2⟩ := by
  decide +kernel

end LineCensus
