import LineCensus.Proofs.BlankLines

/-!
# Lines on which a brace block opens or closes

Outside a block the rules read a line up to the first `*/` that closes one and pass over the rest
(`classify_outside_eq_read`). Inside a block they leave it at the first `*/` for good and ask of every
`*/` what stands right behind it (`classify_closing`). Both statements say on which lines this is what
the scanner sees.
-/

namespace LineCensus.Rules.Brace

/-! ## Lines up to the first block that closes -/

/-- The line up to the first `*/` that closes a block, and all of it if none does. -/
def upToClose : Bool → Text → Text
  | _, [] => []
  | false, '/' :: '/' :: r => '/' :: '/' :: r
  | false, '/' :: '*' :: r => '/' :: '*' :: upToClose true r
  | false, c :: r => c :: upToClose false r
  | true, '*' :: '/' :: _ => ['*', '/']
  | true, c :: r => c :: upToClose true r

theorem head?_upToClose (inside : Bool) (t : Text) : (upToClose inside t).head? = t.head? := by
  fun_cases upToClose inside t <;> rfl

theorem upToClose_of_pastClose?_none {inside : Bool} {t : Text} (h : pastClose? inside t = none) :
    upToClose inside t = t := by
  fun_induction upToClose inside t with
  | case1 => rfl
  | case2 => rfl
  | case3 r ih => rw [ih h]
  | case4 c r hl hb ih => rw [ih (pastClose?.eq_4 c r hl hb ▸ h)]
  | case5 => cases h
  | case6 c r hc ih => rw [ih (pastClose?.eq_6 c r hc ▸ h)]

theorem pair_upToClose {a b c : Char} {inside : Bool} {r : Text}
    (h : ∀ tail, c = a → r = b :: tail → False) :
    ∀ tail, c = a → upToClose inside r = b :: tail → False := by
  intro tail hc hr
  have hh : r.head? = some b := by rw [← head?_upToClose inside, hr]; rfl
  obtain ⟨tail', ht⟩ := List.head?_eq_some_iff.mp hh
  exact h tail' hc ht

theorem scan_of_pastClose? {inside : Bool} {t behind : Text}
    (h : pastClose? inside t = some behind) :
    (scan inside (upToClose inside t)).inside = false ∧
      (scan inside t).outside =
        (scan inside (upToClose inside t)).outside ++ (scan false behind).outside ∧
      (scan inside t).inside = (scan false behind).inside := by
  fun_induction upToClose inside t with
  | case1 => cases h
  | case2 => cases h
  | case3 r ih => exact ih h
  | case4 c r hl hb ih =>
    obtain ⟨hf, ho, hi⟩ := ih (pastClose?.eq_4 c r hl hb ▸ h)
    rw [scan.eq_4 c r hl hb, scan.eq_4 _ _ (pair_upToClose hl) (pair_upToClose hb)]
    exact ⟨hf, congrArg (c :: ·) ho, hi⟩
  | case5 r => cases h; exact ⟨rfl, rfl, rfl⟩
  | case6 c r hc ih =>
    rw [scan.eq_6 c r hc, scan.eq_6 _ _ (pair_upToClose hc)]
    exact ih (pastClose?.eq_6 c r hc ▸ h)

theorem opening_upToClose {t rest : Text} (h : opening t = some rest) :
    opening (upToClose false t) = some (upToClose true rest) := by
  fun_induction opening t with
  | case1 => cases h
  | case2 r => cases h; rfl
  | case3 => cases h
  | case4 c r hb hl ih =>
    rw [upToClose.eq_4 c r hl hb, opening.eq_4 _ _ (pair_upToClose hb) (pair_upToClose hl)]
    exact ih h

theorem startsWith_upToClose (t : Text) :
    startsWith ['/', '*'] (Text.unindented (upToClose false t)) =
      startsWith ['/', '*'] (Text.unindented t) := by
  generalize hin : false = inside
  fun_induction upToClose inside t with
  | case1 => rfl
  | case2 => rfl
  | case3 => rfl
  | case4 c r hl hb ih =>
    cases hc : isBlank c with
    | true => rw [Text.unindented_cons_of_blank hc, Text.unindented_cons_of_blank hc, ih rfl]
    | false =>
      rw [Text.unindented_cons_of_not_blank hc, Text.unindented_cons_of_not_blank hc,
        startsWith_pair hb, startsWith_pair (pair_upToClose hb)]
  | case5 => cases hin
  | case6 => cases hin

/-! ## Lines that open a block -/

theorem ofKind_kindOutside_eq_read (policy : BlankInBlock) {t : Text} (hn : '\n' ∉ t) :
    Reading.ofKind (brace.kindOutside t) = read policy false (upToClose false t) := by
  cases hp : pastClose? false t with
  | none =>
    have hplain : Plain false t := by
      intro behind hb
      rw [hp] at hb
      cases hb
    rw [upToClose_of_pastClose?_none hp, ofKind_kindOutside policy hn hplain]
  | some behind =>
    rw [pastClose?_outside] at hp
    obtain ⟨rest, ho, hr⟩ := Option.bind_eq_some_iff.mp hp
    have hk : brace.kindOutside t = (if codeBefore t then .blockMixed else .comment,
        !(pastClose? true rest).isSome) := by
      simp only [kindOutside, brace, block, ho, Option.map_some]
      rw [← occurs_eq_isSome_pastClose?]
      rfl
    obtain ⟨hin, hout, -⟩ := scan_of_pastClose? hr
    have hfront : (scan true (upToClose true rest)).outside = [] := by
      rw [scan_inside, hr] at hout
      exact List.self_eq_append_left.mp hout
    rw [hk, hr, codeBefore_of_opening ho hn, read_of_opening policy (opening_upToClose ho), hfront,
      hin, startsWith_upToClose]
    cases startsWith ['/', '*'] (Text.unindented t) <;> rfl

/-- A line outside a block counts as what the scanner reads of it up to the first `*/` that closes a
block. The scanner sees the same code and the same end on the whole line exactly if what is behind
that `*/` leaves no block open and holds code only where some comes before. -/
theorem classify_outside_eq_read (policy : BlankInBlock) {line : Text} (hn : '\n' ∉ line) :
    let t := brace.stripper.strip line
    let k := brace.classify policy false line
    Reading.ofKind k = read policy false (upToClose false t) ∧
      ((k.1.hasCode = !Text.blank (scan false t).outside ∧ k.2 = (scan false t).inside) ↔
        ∀ behind ∈ pastClose? false t, (scan false behind).inside = false ∧
          (Text.blank (scan false (upToClose false t)).outside = true →
            Text.blank (scan false behind).outside = true)) := by
  intro t k
  have hk : Reading.ofKind k = read policy false (upToClose false t) :=
    ofKind_kindOutside_eq_read policy (not_mem_strip hn)
  refine ⟨hk, ?_⟩
  have hcode : k.1.hasCode = !Text.blank (scan false (upToClose false t)).outside :=
    congrArg Reading.code hk
  have hinside : k.2 = (scan false (upToClose false t)).inside := congrArg Reading.inside hk
  rw [hcode, hinside]
  cases hp : pastClose? false t with
  | none =>
    rw [upToClose_of_pastClose?_none hp]
    simp
  | some behind =>
    obtain ⟨hf, ho, hi⟩ := scan_of_pastClose? hp
    rw [hf, ho, hi, Text.blank_append]
    simp only [Option.mem_some_iff, forall_eq']
    cases (scan false behind).inside <;>
      cases Text.blank (scan false (upToClose false t)).outside <;>
        cases Text.blank (scan false behind).outside <;> simp

theorem classify_outside_eq_read_sample :
    let line := "x = \"/*\" /* a */ + y /* b */".toList
    let t := brace.stripper.strip line
    let k := brace.classify .blank false line
    '\n' ∉ line ∧ Reading.ofKind k = ⟨true, true, false⟩ ∧
      k.1.hasCode = !Text.blank (scan false t).outside ∧ k.2 = (scan false t).inside := by
  intro line t k
  have hn : '\n' ∉ line := by decide
  obtain ⟨hk, hiff⟩ := classify_outside_eq_read .blank hn
  have hb : ∀ behind ∈ pastClose? false t, (scan false behind).inside = false ∧
      (Text.blank (scan false (upToClose false t)).outside = true →
        Text.blank (scan false behind).outside = true) := by
    decide
  exact ⟨hn, hk.trans (by decide), hiff.mpr hb⟩

/-- Code behind a block counts for nothing when the block comes first. -/
theorem classify_misses_code_behind_block :
    let line := "/* a */ x".toList
    '\n' ∉ line ∧ brace.classify .blank false line = (.comment, false) ∧
      Text.blank (scan false (brace.stripper.strip line)).outside = false := by
  decide

/-! ## Lines that close a block -/

theorem codeBehind_iff {t : Text} : codeBehind t = true ↔
    ∃ behind, '*' :: '/' :: behind <:+ t ∧ startsWithCode behind = true := by
  fun_induction codeBehind t with
  | case1 => simp
  | case2 r ih =>
    rw [Bool.or_eq_true, ih]
    constructor
    · rintro (h | ⟨behind, hs, h⟩)
      · exact ⟨r, List.suffix_rfl, h⟩
      · exact ⟨behind, (hs.trans (List.suffix_cons ..)).trans (List.suffix_cons ..), h⟩
    · rintro ⟨behind, hs, h⟩
      rcases List.suffix_cons_iff.mp hs with he | hs
      · cases he; exact Or.inl h
      rcases List.suffix_cons_iff.mp hs with he | hs
      · cases he
      · exact Or.inr ⟨behind, hs, h⟩
  | case3 c r hc ih =>
    rw [ih]
    refine exists_congr fun behind => and_congr_left fun _ => ?_
    rw [List.suffix_cons_iff]
    refine ⟨Or.inr, fun h => h.resolve_left fun he => ?_⟩
    cases he
    exact hc behind rfl rfl

/-- What is behind the `*/` that closes a block leaves none open and is no lone slash. If it is a line
comment, no `*/` in it has code behind it, and if it is a block, code follows somewhere. -/
structure SeenBehind (behind : Text) : Prop where
  closed : (scan false behind).inside = false
  slash : Text.unindented behind ≠ ['/']
  lineComment : startsWith ['/', '/'] (Text.unindented behind) = true → codeBehind behind = false
  block : startsWith ['/', '*'] (Text.unindented behind) = true →
    Text.blank (scan false behind).outside = false

theorem not_occurs_of_slash {t : Text} (h : Text.unindented t = ['/']) :
    Text.occurs ['*', '/'] t = false := by
  cases ho : Text.occurs ['*', '/'] t with
  | false => rfl
  | true =>
    have hm : '*' ∈ t.takeWhile isBlank ++ t.dropWhile isBlank := by
      rw [List.takeWhile_append_dropWhile]
      exact Text.mem_of_occurs ho (List.mem_cons_self ..)
    rcases List.mem_append.mp hm with hm | hm
    · exact absurd (List.mem_takeWhile_imp hm) (by decide)
    · rw [show t.dropWhile isBlank = ['/'] from h] at hm
      exact absurd hm (by decide)

theorem codeBehind_eq_iff_of_opening_none {t behind : Text} (h : pastClose? true t = some behind)
    (ho : opening behind = none) :
    codeBehind t = !Text.blank (scan false behind).outside ↔
      Text.unindented behind ≠ ['/'] ∧
        (startsWith ['/', '/'] (Text.unindented behind) = true → codeBehind behind = false) := by
  have hcode : (!Text.blank (scan false behind).outside) =
      !(Text.blank behind || startsWith ['/', '/'] (Text.unindented behind)) :=
    congrArg Reading.code (read_of_opening_none .blank ho)
  rw [codeBehind_eq h, hcode]
  by_cases hs : Text.unindented behind = ['/']
  · have hb : Text.blank behind = false := by rw [Text.blank_eq_isEmpty_unindented, hs]; rfl
    have hc : startsWithCode behind = false := by rw [startsWithCode, hs]; rfl
    rw [codeBehind_of_not_occurs (not_occurs_of_slash hs), hc, hb, hs]
    decide
  · rw [startsWithCode_eq behind hs]
    cases hb : Text.blank behind with
    | true =>
      have hc : Text.occurs ['*', '/'] behind = false :=
        Text.occurs_of_blank (c := '*') (by decide) (by decide) hb
      simp [codeBehind_of_not_occurs hc, hs]
    | false =>
      cases startsWith ['/', '/'] (Text.unindented behind) <;> simp [hs]

theorem codeBehind_of_opening {t behind rest : Text} (h : pastClose? true t = some behind)
    (ho : opening behind = some rest) :
    codeBehind t = true ∧ Text.unindented behind ≠ ['/'] ∧
      startsWith ['/', '/'] (Text.unindented behind) = false := by
  have hu := ho
  rw [← opening_unindented] at hu
  have hs : Text.unindented behind ≠ ['/'] := fun e => by rw [e] at hu; cases hu
  have hl : startsWith ['/', '/'] (Text.unindented behind) = false := by
    cases hl : startsWith ['/', '/'] (Text.unindented behind) with
    | false => rfl
    | true =>
      obtain ⟨r, hr⟩ := Option.isSome_iff_exists.mp hl
      rw [Text.after?_eq_some_iff.mp hr] at hu
      cases hu
  have hb : Text.blank behind = false :=
    Text.blank_eq_false_of_mem (Text.mem_of_occurs (occurs_of_opening ho) (List.mem_cons_self ..))
      (by decide)
  refine ⟨?_, hs, hl⟩
  rw [codeBehind_eq h, startsWithCode_eq behind hs, hb, hl]
  rfl

theorem codeBehind_eq_iff {t behind : Text} (h : pastClose? true t = some behind) :
    (codeBehind t = (!Text.blank (scan false behind).outside) ∧ (scan false behind).inside = false) ↔
      SeenBehind behind := by
  cases ho : opening behind with
  | none =>
    have hb : startsWith ['/', '*'] (Text.unindented behind) = false := by
      cases hb : startsWith ['/', '*'] (Text.unindented behind) with
      | false => rfl
      | true =>
        obtain ⟨r, hr⟩ := Option.isSome_iff_exists.mp hb
        rw [← opening_unindented, Text.after?_eq_some_iff.mp hr] at ho
        cases ho
    rw [codeBehind_eq_iff_of_opening_none h ho]
    exact ⟨fun ⟨⟨hs, hl⟩, hc⟩ => ⟨hc, hs, hl, fun e => by rw [hb] at e; cases e⟩,
      fun hb => ⟨⟨hb.slash, hb.lineComment⟩, hb.closed⟩⟩
  | some rest =>
    obtain ⟨hk, hs, hl⟩ := codeBehind_of_opening h ho
    have hcode : (!Text.blank (scan false behind).outside) =
        (!startsWith ['/', '*'] (Text.unindented behind) ||
          !Text.blank (scan true rest).outside) :=
      congrArg Reading.code (read_of_opening .blank ho)
    rw [hk]
    constructor
    · rintro ⟨ha, hc⟩
      exact ⟨hc, hs, fun e => (by rw [hl] at e; cases e), fun _ => by simpa using ha.symm⟩
    · intro hb
      refine ⟨?_, hb.closed⟩
      cases he : startsWith ['/', '*'] (Text.unindented behind) with
      | true => rw [hb.block he]; rfl
      | false => rw [hcode, he]; rfl

/-- A line inside a block that holds `*/` ends outside it. It is mixed if some `*/` has code right
behind it and a comment otherwise. The scanner agrees on kind and end exactly if it sees what is
behind the first `*/` as the rules do. -/
theorem classify_closing (policy : BlankInBlock) {line : Text}
    (h : Text.occurs "*/".toList (brace.stripper.strip line) = true) :
    let t := brace.stripper.strip line
    let k := brace.classify policy true line
    k.2 = false ∧
      (k.1 = .blockMixed ∧ (∃ behind, '*' :: '/' :: behind <:+ t ∧ startsWithCode behind = true) ∨
        k.1 = .comment ∧ ¬ ∃ behind, '*' :: '/' :: behind <:+ t ∧ startsWithCode behind = true) ∧
      ∃ behind, pastClose? true t = some behind ∧
        (k = (if Text.blank (scan true t).outside then .comment else .blockMixed,
            (scan true t).inside) ↔ SeenBehind behind) := by
  intro t k
  have hk : k = (if codeBehind t then .blockMixed else .comment, false) := by
    have hi : k = brace.kindInside policy t := rfl
    have hc : Text.occurs ['*', '/'] t = true := h
    rw [hi]
    simp only [kindInside, brace, block]
    cases codeBehind t with
    | true => rfl
    | false => exact if_pos hc
  have hp : (pastClose? true t).isSome = true := by rw [← occurs_eq_isSome_pastClose?]; exact h
  obtain ⟨behind, hb⟩ := Option.isSome_iff_exists.mp hp
  refine ⟨by rw [hk], ?_, behind, hb, ?_⟩
  · rw [hk, ← codeBehind_iff]
    cases codeBehind t <;> simp
  · have hs : scan true t = scan false behind := by rw [scan_inside, hb]
    rw [hk, hs, ← codeBehind_eq_iff hb, Prod.mk.injEq]
    cases codeBehind t <;> cases Text.blank (scan false behind).outside <;>
      cases (scan false behind).inside <;> simp

theorem classify_closing_sample :
    let line := "a */ /* \"*/\" */ / b // */".toList
    Text.occurs "*/".toList (brace.stripper.strip line) = true ∧
      brace.classify .comment true line = (.blockMixed, false) ∧
      SeenBehind " /* X */ / b // */".toList := by
  intro line
  have h : Text.occurs "*/".toList (brace.stripper.strip line) = true := by decide
  obtain ⟨h2, -, behind, hp, hiff⟩ := classify_closing .comment h
  have hb : behind = " /* X */ / b // */".toList := by
    rw [show pastClose? true (brace.stripper.strip line) = some " /* X */ / b // */".toList by
      decide] at hp
    exact (Option.some.inj hp).symm
  have hk : brace.classify .comment true line = (.blockMixed, false) := by decide
  exact ⟨h, hk, hb ▸ hiff.mp (hk.trans (by decide))⟩

/-- A block that opens behind the one that closes is taken for code and forgotten. -/
theorem classify_forgets_reopened_block :
    let line := "*/ /* x".toList
    '\n' ∉ line ∧ Text.occurs "*/".toList (brace.stripper.strip line) = true ∧
      brace.classify .blank true line = (.blockMixed, false) ∧
      Text.blank (scan true (brace.stripper.strip line)).outside = true ∧
      (scan true (brace.stripper.strip line)).inside = true := by
  decide

end LineCensus.Rules.Brace
