import LineCensus.Proofs.BlankLines
import LineCensus.Proofs.FrontsAndTails

/-!
# Blanks at the ends of a line

No marker, delimiter, guarded token or mask holds a blank, so the rules find the same in a line with
blanks around it. `classify_blank_ends`: blanks in front of a line change nothing unless a block is
marked at the start of lines, and blanks at its end change nothing but behind the close of a block that
may share its line with code.
-/

namespace LineCensus

/-! ## Searching between blanks -/

namespace Text

theorem unindented_append (t u : Text) :
    unindented (t ++ u) = if blank t then unindented u else unindented t ++ u := by
  rw [blank_eq_isEmpty_unindented]
  exact List.dropWhile_append

/-- No character is blank. A computed test, so that it is decided on a marker without going through all
characters. -/
def visible (t : Text) : Bool :=
  t.all fun c => !isBlank c

theorem isBlank_of_mem_visible {t : Text} (h : visible t = true) {c : Char} (hc : c ∈ t) :
    isBlank c = false := by
  rw [visible, List.all_eq_true] at h
  simpa using h c hc

section
variable {u : Text} (hu : blank u = true)
include hu

theorem not_mem_of_blank {c : Char} (hc : isBlank c = false) : c ∉ u := by
  intro h
  rw [blank_eq_false_of_mem h hc] at hu
  cases hu

theorem disjoint_of_blank {token : Text} (h : visible token = true) : ∀ c ∈ token, c ∉ u :=
  fun _ hc => not_mem_of_blank hu (isBlank_of_mem_visible h hc)

theorem blank_append_blank (t : Text) : blank (t ++ u) = blank t := by
  rw [blank_append, hu, Bool.and_true]

theorem blank_blank_append (t : Text) : blank (u ++ t) = blank t := by
  rw [blank_append, hu, Bool.true_and]

theorem unindented_blank_append (t : Text) : unindented (u ++ t) = unindented t := by
  rw [unindented_append, if_pos hu]

theorem unindented_append_blank (t : Text) :
    (unindented t = [] ∧ unindented (t ++ u) = []) ∨
    ∃ c r, unindented t = c :: r ∧ unindented (t ++ u) = c :: (r ++ u) := by
  rw [unindented_append]
  have hr : unindented u = [] := by
    rw [← List.isEmpty_iff, ← blank_eq_isEmpty_unindented, hu]
  have ht := blank_eq_isEmpty_unindented t
  cases h : unindented t with
  | nil => exact Or.inl ⟨rfl, by rw [ht, h, hr]; rfl⟩
  | cons c r => exact Or.inr ⟨c, r, rfl, by rw [ht, h]; rfl⟩

theorem atWordEnd_append_blank (t : Text) : atWordEnd (t ++ u) = atWordEnd t := by
  cases t with
  | nil =>
    cases u with
    | nil => rfl
    | cons c r =>
      rw [blank_cons, Bool.and_eq_true] at hu
      exact hu.1
  | cons c r => rfl

theorem contains_append_blank {c : Char} (hc : isBlank c = false) (t : Text) :
    (t ++ u).contains c = t.contains c := by
  have h : u.contains c = false := by simpa using not_mem_of_blank hu hc
  rw [List.contains_append, h, Bool.or_false]

theorem contains_blank_append {c : Char} (hc : isBlank c = false) (t : Text) :
    (u ++ t).contains c = t.contains c := by
  have h : u.contains c = false := by simpa using not_mem_of_blank hu hc
  rw [List.contains_append, h, Bool.false_or]

end

end Text

/-! ## Stripping between blanks -/

theorem isBlank_of_isDigit {c : Char} (h : c.isDigit = true) : isBlank c = false := by
  simp only [Char.isDigit, Bool.and_eq_true, decide_eq_true_eq, ge_iff_le, UInt32.le_iff_toNat_le] at h
  have hn : 48 ≤ c.toNat ∧ c.toNat ≤ 57 := h
  simp only [isBlank, Bool.or_eq_false_iff, Bool.and_eq_false_iff, decide_eq_false_iff_not,
    beq_eq_false_iff_ne]
  omega

theorem Stripper.visible_mask (i : Nat) : Text.visible (mask i) = true := by
  rw [Text.visible, List.all_eq_true]
  intro c h
  rw [mask, List.cons_append, List.mem_cons, List.mem_append, List.mem_singleton] at h
  rcases h with rfl | h | rfl
  · decide
  · rw [isBlank_of_isDigit (Text.isDigit_of_mem_decimal h), Bool.not_false]
  · decide

namespace Rules

theorem guarded_visible (l : Language) : ∀ token ∈ l.rules.stripper.guarded,
    token ≠ [] ∧ Text.visible token = true := by
  cases l <;> decide

section
variable (l : Language) {u : Text} (hu : Text.blank u = true)
include hu

theorem strip_append_blank (t : Text) :
    l.rules.stripper.strip (t ++ u) = l.rules.stripper.strip t ++ u := by
  apply Stripper.strip_append_tail
  · exact fun k => Text.not_mem_of_blank hu k.isBlank_delimiter
  · intro token h
    obtain ⟨hn, hc⟩ := guarded_visible l token h
    exact ⟨hn, Text.disjoint_of_blank hu hc⟩
  · exact fun i => Text.disjoint_of_blank hu (Stripper.visible_mask i)

theorem strip_blank_append (t : Text) :
    l.rules.stripper.strip (u ++ t) = u ++ l.rules.stripper.strip t := by
  apply Stripper.strip_append_front
  · exact fun k _ => Text.not_mem_of_blank hu k.isBlank_delimiter
  · intro token h
    obtain ⟨hn, hc⟩ := guarded_visible l token h
    obtain ⟨first, more, rfl⟩ := List.exists_cons_of_ne_nil hn
    exact ⟨first, more, rfl, Text.disjoint_of_blank hu hc first (List.mem_cons_self ..)⟩
  · exact Text.not_mem_of_blank hu (by decide)

end

end Rules

/-! ## What the rules ask of a line -/

/-- Whether a block opens, and then whether code stands before it and whether it ends again. -/
def BlockRules.opens? (block : BlockRules) (t : Text) : Option (Bool × Bool) :=
  (block.opened t).map fun rest => (block.codeBefore t, block.closes rest)

namespace Rules

/-- All that the rules ask of a line outside a block has the same answer for both texts. -/
structure AlikeOutside (rules : Rules) (t t' : Text) : Prop where
  blank : Text.blank t = Text.blank t'
  onlyComment : rules.onlyComment t = rules.onlyComment t'
  someComment : rules.someComment t = rules.someComment t'
  opens : ∀ block ∈ rules.block, block.opens? t = block.opens? t'

structure AlikeInside (rules : Rules) (t t' : Text) : Prop where
  blank : Text.blank t = Text.blank t'
  closes : ∀ block ∈ rules.block, block.closes t = block.closes t'
  codeBehind : ∀ block ∈ rules.block, block.codeBehind t = block.codeBehind t'

theorem kindOutside_eq (rules : Rules) (t : Text) : rules.kindOutside t =
    match rules.block.bind fun block => block.opens? t with
    | none => (rules.plainKind t, false)
    | some (code, closed) => (if code then .blockMixed else .comment, !closed) := by
  unfold kindOutside
  cases rules.block with
  | none => rfl
  | some block =>
    rw [Option.bind_some, BlockRules.opens?]
    dsimp only
    cases block.opened t <;> rfl

section
variable {rules : Rules} {t t' : Text}

theorem AlikeOutside.kindOutside_eq (h : rules.AlikeOutside t t') :
    rules.kindOutside t = rules.kindOutside t' := by
  have hp : rules.plainKind t = rules.plainKind t' := by
    unfold plainKind
    rw [h.blank, h.onlyComment, h.someComment]
  have ho : (rules.block.bind fun block => block.opens? t) =
      rules.block.bind fun block => block.opens? t' :=
    Option.bind_congr h.opens
  rw [Rules.kindOutside_eq, Rules.kindOutside_eq, hp, ho]

theorem AlikeInside.kindInside_eq (h : rules.AlikeInside t t') (policy : BlankInBlock) :
    rules.kindInside policy t = rules.kindInside policy t' := by
  have hw : kindWithin policy t = kindWithin policy t' := by rw [kindWithin, h.blank, kindWithin]
  unfold kindInside
  cases hb : rules.block with
  | none => dsimp only; rw [hw]
  | some block =>
    dsimp only
    rw [h.closes block hb, h.codeBehind block hb, hw]

end

/-! ## Remarks -/

namespace Basic

theorem toLower_of_isBlank {c : Char} (h : isBlank c = true) : c.toLower = c := by
  have hn : ¬ (65 ≤ c.toNat ∧ c.toNat ≤ 90) := by
    simp only [isBlank, Bool.or_eq_true, Bool.and_eq_true, decide_eq_true_eq, beq_iff_eq] at h
    omega
  unfold Char.toLower
  exact dif_neg hn

theorem isRemark_iff {t : Text} : isRemark t = true ↔
    ∃ word, word.map Char.toLower = "rem".toList ∧ startsWithWord word t = true := by
  constructor
  · intro h
    unfold isRemark at h
    split at h
    · next r e m rest =>
      simp only [Bool.and_eq_true, beq_iff_eq] at h
      obtain ⟨⟨⟨hr, he⟩, hm⟩, hw⟩ := h
      refine ⟨[r, e, m], by simp [hr, he, hm], ?_⟩
      have ha : Text.after? [r, e, m] (r :: e :: m :: rest) = some rest := Text.after?_append _ _
      rw [startsWithWord, ha]
      exact hw
    · cases h
  · rintro ⟨word, hl, hw⟩
    have hl : word.map Char.toLower = ['r', 'e', 'm'] := hl
    unfold startsWithWord at hw
    split at hw
    · next rest ha =>
      obtain ⟨r, word, rfl, hr, hl⟩ := List.map_eq_cons_iff.mp hl
      obtain ⟨e, word, rfl, he, hl⟩ := List.map_eq_cons_iff.mp hl
      obtain ⟨m, word, rfl, hm, hl⟩ := List.map_eq_cons_iff.mp hl
      rw [List.map_eq_nil_iff.mp hl] at ha
      rw [Text.after?_eq_some_iff.mp ha]
      simpa [isRemark, hr, he, hm] using hw
    · cases hw

theorem toLower_mem_of_mem {word : Text} (h : word.map Char.toLower = "rem".toList) {c : Char}
    (hc : c ∈ word) : c.toLower ∈ ['r', 'e', 'm'] := by
  have hm : c.toLower ∈ word.map Char.toLower := List.mem_map_of_mem hc
  rw [h] at hm
  exact hm

theorem visible_remark {word : Text} (h : word.map Char.toLower = "rem".toList) :
    Text.visible word = true := by
  rw [Text.visible, List.all_eq_true]
  intro c hc
  cases hb : isBlank c with
  | false => rfl
  | true =>
    have hm := toLower_mem_of_mem h hc
    rw [toLower_of_isBlank hb] at hm
    have hv : Text.visible ['r', 'e', 'm'] = true := by decide
    rw [Text.isBlank_of_mem_visible hv hm] at hb
    cases hb

end Basic

/-! ## Blanks at the end -/

section
variable {u : Text} (hu : Text.blank u = true)
include hu

theorem startsWith_unindented_append_blank {marker : Text} (hm : Text.visible marker = true)
    (t : Text) :
    startsWith marker (Text.unindented (t ++ u)) = startsWith marker (Text.unindented t) := by
  rcases Text.unindented_append_blank hu t with ⟨ht, htu⟩ | ⟨c, r, ht, htu⟩
  · rw [ht, htu]
  · rw [ht, htu, ← List.cons_append]
    exact Text.isSome_after?_append_tail (Text.disjoint_of_blank hu hm) _

theorem startsWithWord_append_blank {marker : Text} (hm : Text.visible marker = true)
    (t : Text) : startsWithWord marker (t ++ u) = startsWithWord marker t := by
  unfold startsWithWord
  rw [Text.after?_append_tail (Text.disjoint_of_blank hu hm)]
  cases Text.after? marker t with
  | none => rfl
  | some rest => exact Text.atWordEnd_append_blank hu rest

theorem Ruby.opens?_append_blank (t : Text) : Ruby.block.opens? (t ++ u) = Ruby.block.opens? t := by
  have hc : ∀ v, startsWithWord "=end".toList (Literal.placeholder :: v) = false := fun _ => rfl
  simp only [BlockRules.opens?, Ruby.block, Ruby.opened]
  rw [Text.after?_append_tail (Text.disjoint_of_blank hu (by decide))]
  cases Text.after? "=begin".toList t with
  | none => rfl
  | some rest =>
    simp only [Option.map_some, Text.atWordEnd_append_blank hu]
    split
    · rw [Option.map_some, Option.map_some, hc, hc]
    · rfl

theorem Python.opens?_append_blank (t : Text) :
    Python.block.opens? (t ++ u) = Python.block.opens? t := by
  have hd : ∀ c ∈ Python.tripleQuote, c ∉ u := Text.disjoint_of_blank hu (by decide)
  simp only [BlockRules.opens?, Python.block]
  rw [Text.replaceFirst?_append_tail hd (by decide), Option.map_map]
  congr 1
  funext rest
  exact congrArg (Prod.mk false) (Text.occurs_append_tail hd (by decide) rest)

theorem Basic.isRemark_append_blank (t : Text) : Basic.isRemark (t ++ u) = Basic.isRemark t := by
  rw [Bool.eq_iff_iff, Basic.isRemark_iff, Basic.isRemark_iff]
  refine exists_congr fun word => and_congr_right fun hl => ?_
  rw [startsWithWord_append_blank hu (Basic.visible_remark hl)]

end

namespace Brace

section
variable {u : Text} (hu : Text.blank u = true)
include hu

theorem append_blank_ne {a : Char} (ha : isBlank a = false) {r : Text}
    (h : ∀ r', r = a :: r' → False) : ∀ r', r ++ u = a :: r' → False := by
  intro r' he
  cases r with
  | nil =>
    have hm : a ∈ u := by rw [← List.nil_append u, he]; exact List.mem_cons_self ..
    exact Text.not_mem_of_blank hu ha hm
  | cons c r =>
    rw [List.cons_append, List.cons.injEq] at he
    exact h r (by rw [he.1])

theorem opening_append_blank (t : Text) : opening (t ++ u) = (opening t).map (· ++ u) := by
  fun_induction opening t with
  | case1 =>
    exact opening_eq_none_of_not_occurs
      (Text.occurs_tail (Text.disjoint_of_blank hu (by decide)) (by decide))
  | case2 r => rfl
  | case3 r => rfl
  | case4 c r hb hl ih =>
    rw [List.cons_append, opening.eq_4, ih]
    · intro r' hc
      exact append_blank_ne hu (by decide) (fun r' => hb r' hc) r'
    · intro r' hc
      exact append_blank_ne hu (by decide) (fun r' => hl r' hc) r'

theorem opensOnLine_append_blank (t : Text) : opensOnLine (t ++ u) = opensOnLine t := by
  have hw : Text.blank (u.takeWhile (· != '\n')) = true := by
    rw [Text.blank, List.all_eq_true] at hu ⊢
    exact fun c hc => hu c ((List.takeWhile_sublist _).mem hc)
  unfold opensOnLine
  rw [List.takeWhile_append]
  split
  · next hl =>
    rw [(List.takeWhile_prefix _).eq_of_length hl]
    exact Text.occurs_append_tail (Text.disjoint_of_blank hw (by decide)) (by decide) t
  · rfl

end

theorem codeBefore_of_ne {t r : Text} {c : Char} (h : Text.unindented t = c :: r) (hc : c ≠ '/') :
    codeBefore t = opensOnLine r := by
  unfold codeBefore
  rw [h]
  split <;> simp_all

section
variable {u : Text} (hu : Text.blank u = true)
include hu

theorem codeBefore_append_blank (t : Text) : codeBefore (t ++ u) = codeBefore t := by
  rcases Text.unindented_append_blank hu t with ⟨ht, htu⟩ | ⟨c, r, ht, htu⟩
  · rw [codeBefore, codeBefore, ht, htu]
  by_cases hc : c = '/'
  · subst hc
    rw [codeBefore, codeBefore, ht, htu]
    cases r with
    | nil =>
      cases u with
      | nil => rfl
      | cons d v =>
        rw [Text.blank_cons, Bool.and_eq_true] at hu
        have hv : opensOnLine v = false := opensOnLine_append_blank hu.2 []
        rw [List.nil_append]
        simp [hv]
    | cons d r =>
      show (d != '*' && opensOnLine (r ++ u)) = (d != '*' && opensOnLine r)
      rw [opensOnLine_append_blank hu]
  · rw [codeBefore_of_ne ht hc, codeBefore_of_ne htu hc, opensOnLine_append_blank hu]

theorem closes_append_blank (t : Text) : block.closes (t ++ u) = block.closes t :=
  Text.occurs_append_tail (Text.disjoint_of_blank hu (by decide)) (by decide) t

theorem opens?_append_blank (t : Text) : block.opens? (t ++ u) = block.opens? t := by
  have ho : ∀ v, block.opened v = (opening v).map (Literal.placeholder :: ·) := fun _ => rfl
  have hb : ∀ v, block.codeBefore v = codeBefore v := fun _ => rfl
  simp only [BlockRules.opens?, ho, hb]
  rw [opening_append_blank hu, codeBefore_append_blank hu, Option.map_map, Option.map_map,
    Option.map_map]
  congr 1
  funext rest
  exact congrArg (Prod.mk _) (closes_append_blank hu (Literal.placeholder :: rest))

end

end Brace

section
variable (l : Language) {u : Text} (hu : Text.blank u = true)
include hu

theorem onlyComment_append_blank (t : Text) :
    l.rules.onlyComment (t ++ u) = l.rules.onlyComment t := by
  cases l with
  | ruby | python | brace => exact startsWith_unindented_append_blank hu (by decide) t
  | basic =>
    have hq : startsWith ['\''] (Text.unindented (t ++ u)) = startsWith ['\''] (Text.unindented t) :=
      startsWith_unindented_append_blank hu (by decide) t
    have hr : Basic.isRemark (Text.unindented (t ++ u)) = Basic.isRemark (Text.unindented t) := by
      rcases Text.unindented_append_blank hu t with ⟨ht, htu⟩ | ⟨c, r, ht, htu⟩
      · rw [ht, htu]
      · rw [ht, htu, ← List.cons_append, Basic.isRemark_append_blank hu]
    simp only [Language.rules, basic, hq, hr]

theorem someComment_append_blank (t : Text) :
    l.rules.someComment (t ++ u) = l.rules.someComment t := by
  cases l with
  | ruby | python | basic => exact Text.contains_append_blank hu (by decide) t
  | brace => exact Text.occurs_append_tail (Text.disjoint_of_blank hu (by decide)) (by decide) t

theorem opens?_append_blank (t : Text) :
    ∀ block ∈ l.rules.block, block.opens? (t ++ u) = block.opens? t := by
  cases l with
  | ruby => rintro _ ⟨⟩; exact Ruby.opens?_append_blank hu t
  | python => rintro _ ⟨⟩; exact Python.opens?_append_blank hu t
  | brace => rintro _ ⟨⟩; exact Brace.opens?_append_blank hu t
  | basic => rintro _ ⟨⟩

theorem closes_append_blank (t : Text) :
    ∀ block ∈ l.rules.block, block.closes (t ++ u) = block.closes t := by
  cases l with
  | ruby => rintro _ ⟨⟩; exact startsWithWord_append_blank hu (by decide) t
  | python =>
    rintro _ ⟨⟩
    exact Text.occurs_append_tail (Text.disjoint_of_blank hu (by decide)) (by decide) t
  | brace => rintro _ ⟨⟩; exact Brace.closes_append_blank hu t
  | basic => rintro _ ⟨⟩

theorem alikeOutside_append_blank (t : Text) : l.rules.AlikeOutside (t ++ u) t where
  blank := Text.blank_append_blank hu t
  onlyComment := onlyComment_append_blank l hu t
  someComment := someComment_append_blank l hu t
  opens := opens?_append_blank l hu t

variable {l}

theorem alikeInside_append_blank (hl : l ≠ .brace) (t : Text) : l.rules.AlikeInside (t ++ u) t where
  blank := Text.blank_append_blank hu t
  closes := closes_append_blank l hu t
  codeBehind := by
    cases l with
    | ruby | python => rintro _ ⟨⟩; rfl
    | brace => exact absurd rfl hl
    | basic => rintro _ ⟨⟩

end

/-! ## Blanks in front -/

section
variable {u : Text} (hu : Text.blank u = true)
include hu

theorem Python.opens?_blank_append (t : Text) :
    Python.block.opens? (u ++ t) = Python.block.opens? t := by
  have hq : '"' ∉ u := Text.not_mem_of_blank hu (by decide)
  have ho : Python.block.opened (u ++ t) = (Python.block.opened t).map (u ++ ·) :=
    Text.replaceFirst?_append_front hq _ t
  rw [BlockRules.opens?, ho, Option.map_map, BlockRules.opens?]
  congr 1
  funext rest
  exact congrArg (Prod.mk false) (Text.occurs_append_front hq rest)

theorem Brace.opens?_blank_append (t : Text) :
    Brace.block.opens? (u ++ t) = Brace.block.opens? t := by
  have ho : Brace.opening (u ++ t) = Brace.opening t := by
    rw [← Brace.opening_unindented, Text.unindented_blank_append hu, Brace.opening_unindented]
  have hb : Brace.codeBefore (u ++ t) = Brace.codeBefore t := by
    rw [Brace.codeBefore, Text.unindented_blank_append hu, Brace.codeBefore]
  simp only [BlockRules.opens?, Brace.block, ho, hb]

theorem Brace.codeBehind_blank_append (t : Text) :
    Brace.codeBehind (u ++ t) = Brace.codeBehind t := by
  have hs : '*' ∉ u := Text.not_mem_of_blank hu (by decide)
  clear hu
  induction u with
  | nil => rfl
  | cons c u ih =>
    rw [List.mem_cons, not_or] at hs
    rw [List.cons_append, Brace.codeBehind.eq_3 _ _ fun _ hc => absurd hc.symm hs.1, ih hs.2]

variable {l : Language} (hl : l ≠ .ruby)

theorem onlyComment_blank_append (l : Language) (t : Text) :
    l.rules.onlyComment (u ++ t) = l.rules.onlyComment t := by
  cases l <;>
    simp only [Language.rules, ruby, python, brace, basic, Text.unindented_blank_append hu]

theorem someComment_blank_append (l : Language) (t : Text) :
    l.rules.someComment (u ++ t) = l.rules.someComment t := by
  cases l with
  | ruby | python | basic => exact Text.contains_blank_append hu (by decide) t
  | brace => exact Text.occurs_append_front (Text.not_mem_of_blank hu (by decide)) t

include hl

theorem alikeOutside_blank_append (t : Text) : l.rules.AlikeOutside (u ++ t) t where
  blank := Text.blank_blank_append hu t
  onlyComment := onlyComment_blank_append hu l t
  someComment := someComment_blank_append hu l t
  opens := by
    cases l with
    | ruby => exact absurd rfl hl
    | python => rintro _ ⟨⟩; exact Python.opens?_blank_append hu t
    | brace => rintro _ ⟨⟩; exact Brace.opens?_blank_append hu t
    | basic => rintro _ ⟨⟩

theorem alikeInside_blank_append (t : Text) : l.rules.AlikeInside (u ++ t) t where
  blank := Text.blank_blank_append hu t
  closes := by
    cases l with
    | ruby => exact absurd rfl hl
    | python | brace =>
      rintro _ ⟨⟩
      exact Text.occurs_append_front (Text.not_mem_of_blank hu (by decide)) t
    | basic => rintro _ ⟨⟩
  codeBehind := by
    cases l with
    | ruby => exact absurd rfl hl
    | python => rintro _ ⟨⟩; rfl
    | brace => rintro _ ⟨⟩; exact Brace.codeBehind_blank_append hu t
    | basic => rintro _ ⟨⟩

end

/-! ## One line -/

/-- Blanks around a line change neither its kind nor what is open behind it, but in two places: a
block that is marked at the start of a line is not marked behind blanks, and a slash that ends a line
behind the close of a block is code only if something follows it. -/
theorem classify_blank_ends (l : Language) (policy : BlankInBlock) (inside : Bool)
    {u : Text} (hu : Text.blank u = true) (line : Text) :
    (l ≠ .ruby → l.rules.classify policy inside (u ++ line) =
      l.rules.classify policy inside line) ∧
    ((l = .brace → inside = false) → l.rules.classify policy inside (line ++ u) =
      l.rules.classify policy inside line) := by
  unfold classify
  rw [strip_blank_append l hu, strip_append_blank l hu]
  generalize l.rules.stripper.strip line = t
  constructor
  · intro hl
    cases inside with
    | false => exact (alikeOutside_blank_append hu hl t).kindOutside_eq
    | true => exact (alikeInside_blank_append hu hl t).kindInside_eq policy
  · intro hl
    cases inside with
    | false => exact (alikeOutside_append_blank l hu t).kindOutside_eq
    | true =>
      have hb : l ≠ .brace := fun e => Bool.noConfusion (hl e)
      exact (alikeInside_append_blank hu hb t).kindInside_eq policy

theorem classify_blank_ends_sample :
    let u := "\u2003\r\n".toList
    let line := "x = '/*' / y /* a".toList
    Text.blank u = true ∧
      brace.classify .blank false (u ++ line) = brace.classify .blank false line ∧
      brace.classify .blank false (line ++ u) = (.blockMixed, true) := by
  intro u line
  have hu : Text.blank u = true := by decide
  obtain ⟨hfront, hend⟩ := classify_blank_ends .brace .blank false hu line
  exact ⟨hu, hfront (by decide), (hend fun _ => rfl).trans (by decide)⟩

example : ruby.classify .blank false "=begin".toList = (.comment, true) ∧
    ruby.classify .blank false " =begin".toList = (.code, false) := by decide

example : brace.classify .blank true "*/ /".toList = (.comment, false) ∧
    brace.classify .blank true "*/ / ".toList = (.blockMixed, false) := by decide

end Rules

end LineCensus
