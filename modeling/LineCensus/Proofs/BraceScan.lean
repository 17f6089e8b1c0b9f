import LineCensus.Proofs.RunCounts
import LineCensus.Proofs.Shrinking
import LineCensus.Proofs.TextSearch
import Mathlib.Data.List.TakeWhile

/-!
# Brace comments: patterns against a scanner

A scanner reads a stripped line from the left and knows of every character whether a comment holds
it. The rules look for their markers anywhere in the line instead. `classifyAll_eq_readAll`: on lines
where little follows the first block that closes, both see the same, over runs of any length.
-/

namespace LineCensus.Rules.Brace

/-! ## The scanner -/

structure Scan where
  /-- The characters that no comment holds. -/
  outside : Text
  starts : Bool
  /-- A block comment is open behind the line. -/
  inside : Bool
  deriving DecidableEq, Repr

def scan : Bool → Text → Scan
  | inside, [] => ⟨[], false, inside⟩
  | false, '/' :: '/' :: _ => ⟨[], true, false⟩
  | false, '/' :: '*' :: r => { scan true r with starts := true }
  | false, c :: r => { scan false r with outside := c :: (scan false r).outside }
  | true, '*' :: '/' :: r => scan false r
  | true, _ :: r => scan true r

/-- What follows the first `*/` that closes a block. -/
def pastClose? : Bool → Text → Option Text
  | _, [] => none
  | false, '/' :: '/' :: _ => none
  | false, '/' :: '*' :: r => pastClose? true r
  | false, _ :: r => pastClose? false r
  | true, '*' :: '/' :: r => some r
  | true, _ :: r => pastClose? true r

structure Reading where
  code : Bool
  comment : Bool
  inside : Bool
  deriving DecidableEq, Repr

def Reading.ofKind (k : LineKind × Bool) : Reading :=
  ⟨k.1.hasCode, k.1.hasComment, k.2⟩

/-- Code is what is not blank outside comments. A comment starts on the line or was open before it;
then a blank line counts for one only if the policy says so. -/
def read (policy : BlankInBlock) (inside : Bool) (t : Text) : Reading :=
  let s := scan inside t
  ⟨!Text.blank s.outside, s.starts || (inside && !(policy = .blank && Text.blank t)), s.inside⟩

def readAll (policy : BlankInBlock) : Bool → List Text → List Reading
  | _, [] => []
  | inside, t :: ts => read policy inside t :: readAll policy (scan inside t).inside ts

/-- What may follow the first block that closes on a line: no marker of a block, no slash that ends
the line, and, where nothing but blanks comes before a block opened on the same line, no code. -/
def PlainBehind (inside : Bool) (t behind : Text) : Prop :=
  Text.occurs "/*".toList behind = false ∧ Text.occurs "*/".toList behind = false ∧
    Text.unindented behind ≠ ['/'] ∧
    (inside = false → startsWith "/*".toList (Text.unindented t) = true →
      Text.unindented behind = [] ∨ startsWith "//".toList (Text.unindented behind) = true)

instance (inside : Bool) (t behind : Text) : Decidable (PlainBehind inside t behind) :=
  inferInstanceAs (Decidable (_ ∧ _ ∧ _ ∧ _))

def Plain (inside : Bool) (t : Text) : Prop :=
  ∀ behind ∈ pastClose? inside t, PlainBehind inside t behind

instance (inside : Bool) (t : Text) : Decidable (Plain inside t) :=
  inferInstanceAs (Decidable (∀ behind ∈ pastClose? inside t, PlainBehind inside t behind))

def PlainAll : Bool → List Text → Prop
  | _, [] => True
  | inside, t :: ts => Plain inside t ∧ PlainAll (scan inside t).inside ts

instance decidablePlainAll : (inside : Bool) → (ts : List Text) → Decidable (PlainAll inside ts)
  | _, [] => isTrue trivial
  | inside, t :: ts =>
    have := decidablePlainAll (scan inside t).inside ts
    inferInstanceAs (Decidable (Plain inside t ∧ PlainAll (scan inside t).inside ts))

/-! ## Where blocks open -/

theorem opening_of_blank {c : Char} (h : isBlank c = true) (r : Text) :
    opening (c :: r) = opening r := by
  have hc : c ≠ '/' := by rintro rfl; revert h; decide
  rw [opening]
  · intro _ e; exact absurd e hc
  · intro _ e; exact absurd e hc

theorem opening_unindented (t : Text) : opening (Text.unindented t) = opening t := by
  induction t with
  | nil => rfl
  | cons c r ih =>
    cases hc : isBlank c with
    | true => rw [Text.unindented_cons_of_blank hc, ih, opening_of_blank hc]
    | false => rw [Text.unindented_cons_of_not_blank hc]

theorem occurs_of_opening {t rest : Text} (h : opening t = some rest) :
    Text.occurs "/*".toList t = true := by
  fun_induction opening t with
  | case1 => cases h
  | case2 r => simp [Text.occurs, Text.after?]
  | case3 => cases h
  | case4 c r _ _ ih => rw [Text.occurs, ih h, Bool.or_true]

theorem startsWith_pair {a b c : Char} {r : Text}
    (h : ∀ tail, c = a → r = b :: tail → False) : startsWith [a, b] (c :: r) = false := by
  rw [startsWith, Text.after?_pair_eq_none h]; rfl

section
variable (policy : BlankInBlock)

theorem read_cons {c : Char} {r : Text} (hl : ∀ tail, c = '/' → r = '/' :: tail → False)
    (hb : ∀ tail, c = '/' → r = '*' :: tail → False) : read policy false (c :: r) =
      { read policy false r with code := !isBlank c || (read policy false r).code } := by
  unfold read
  rw [scan.eq_4 c r hl hb]
  simp [Text.blank, Bool.not_and]

theorem read_of_opening_none {t : Text} (h : opening t = none) : read policy false t =
    ⟨!(Text.blank t || startsWith ['/', '/'] (Text.unindented t)),
      Text.occurs ['/', '/'] t, false⟩ := by
  fun_induction opening t with
  | case1 => rfl
  | case2 => cases h
  | case3 r => rfl
  | case4 c r hb hl ih =>
    rw [read_cons policy hl hb, ih h, Text.occurs_pair_cons hl]
    cases hc : isBlank c with
    | true => simp [Text.unindented_cons_of_blank hc, Text.blank, hc]
    | false => simp [Text.unindented_cons_of_not_blank hc, startsWith_pair hl, Text.blank, hc]

theorem read_of_opening {t rest : Text} (h : opening t = some rest) : read policy false t =
    ⟨!startsWith ['/', '*'] (Text.unindented t) || !Text.blank (scan true rest).outside, true,
      (scan true rest).inside⟩ := by
  fun_induction opening t with
  | case1 => cases h
  | case2 r => cases h; rfl
  | case3 => cases h
  | case4 c r hb hl ih =>
    rw [read_cons policy hl hb, ih h]
    cases hc : isBlank c with
    | true => simp [Text.unindented_cons_of_blank hc]
    | false => simp [Text.unindented_cons_of_not_blank hc, startsWith_pair hb]

end

theorem opensOnLine_of_opening {t rest : Text} (h : opening t = some rest) (hn : '\n' ∉ t) :
    opensOnLine t = true := by
  have hw : t.takeWhile (· != '\n') = t :=
    List.takeWhile_eq_self_iff.mpr fun c hc => bne_iff_ne.mpr fun e => hn (e ▸ hc)
  rw [opensOnLine, hw]
  exact occurs_of_opening h

theorem not_mem_unindented {c : Char} {t : Text} (h : c ∉ t) : c ∉ Text.unindented t :=
  fun hc => h ((List.dropWhile_sublist _).mem hc)

theorem codeBefore_of_opening {t rest : Text} (h : opening t = some rest) (hn : '\n' ∉ t) :
    codeBefore t = !startsWith ['/', '*'] (Text.unindented t) := by
  rw [← opening_unindented] at h
  have hu := not_mem_unindented hn
  unfold codeBefore
  generalize Text.unindented t = u at h hu
  split
  · cases h
  · cases h
  · next c r =>
    by_cases hc : c = '*'
    · subst hc; rfl
    · by_cases hs : c = '/'
      · subst hs; cases h
      · have hr : opening r = some rest := by
          rw [opening, opening] at h <;> simp_all
        rw [opensOnLine_of_opening hr (by simp_all), startsWith_pair (by simp_all)]
        simp [hc]
  · next c r h1 h2 =>
    have hc : c ≠ '/' := by
      rintro rfl
      cases r with
      | nil => exact h1 rfl rfl
      | cons e r => exact h2 e r rfl rfl
    have hr : opening r = some rest := by
      rw [opening] at h <;> simp_all
    rw [opensOnLine_of_opening hr (by simp_all), startsWith_pair (by simp_all)]
    rfl

/-! ## Where blocks close -/

theorem scan_inside (t : Text) : scan true t =
    match pastClose? true t with
    | some behind => scan false behind
    | none => ⟨[], false, true⟩ := by
  generalize hb : true = inside
  fun_induction pastClose? inside t with
  | case1 => subst hb; rfl
  | case2 => cases hb
  | case3 => cases hb
  | case4 => cases hb
  | case5 => rfl
  | case6 c r hc ih => rw [scan.eq_6 c r hc, ih rfl]

theorem pastClose?_outside (t : Text) :
    pastClose? false t = (opening t).bind (pastClose? true) := by
  fun_induction opening t with
  | case1 => rfl
  | case2 => rfl
  | case3 => rfl
  | case4 c r hb hl ih => rw [pastClose?.eq_4 c r hl hb, ih]

theorem occurs_eq_isSome_pastClose? (t : Text) :
    Text.occurs ['*', '/'] t = (pastClose? true t).isSome := by
  generalize hb : true = inside
  fun_induction pastClose? inside t with
  | case1 => rfl
  | case2 => cases hb
  | case3 => cases hb
  | case4 => cases hb
  | case5 => rfl
  | case6 c r hc ih => rw [Text.occurs_pair_cons hc, ih hb]

theorem codeBehind_of_not_occurs {t : Text} (h : Text.occurs ['*', '/'] t = false) :
    codeBehind t = false := by
  fun_induction codeBehind t with
  | case1 => rfl
  | case2 r ih => simp [Text.occurs, Text.after?] at h
  | case3 c r hc ih => rw [Text.occurs_pair_cons hc] at h; exact ih h

theorem codeBehind_eq {t behind : Text} (h : pastClose? true t = some behind) :
    codeBehind t = (startsWithCode behind || codeBehind behind) := by
  fun_induction codeBehind t with
  | case1 => cases h
  | case2 r _ => cases h; rfl
  | case3 c r hc ih => exact ih ((pastClose?.eq_6 c r hc) ▸ h)

theorem codeBehind_of_pastClose? {t behind : Text} (h : pastClose? true t = some behind)
    (hb : Text.occurs ['*', '/'] behind = false) : codeBehind t = startsWithCode behind := by
  rw [codeBehind_eq h, codeBehind_of_not_occurs hb, Bool.or_false]

theorem startsWithCode_eq (t : Text) (h : Text.unindented t ≠ ['/']) :
    startsWithCode t = !(Text.blank t || startsWith ['/', '/'] (Text.unindented t)) := by
  rw [Text.blank_eq_isEmpty_unindented]
  unfold startsWithCode
  split
  · next he => rw [he]; rfl
  · next he => exact absurd he h
  · next c r he =>
    rw [he]
    by_cases hc : c = '/'
    · subst hc; rfl
    · rw [startsWith_pair (by simp_all)]; simp [hc]
  · next c r h1 h2 he =>
    rw [he, startsWith_pair]
    · rfl
    · rintro tail rfl rfl; exact h2 '/' tail rfl rfl

theorem opening_eq_none_of_not_occurs {t : Text} (h : Text.occurs "/*".toList t = false) :
    opening t = none := by
  cases ho : opening t with
  | none => rfl
  | some rest => rw [occurs_of_opening ho] at h; cases h

theorem scan_plainBehind {inside : Bool} {t behind : Text} (h : PlainBehind inside t behind) :
    (!Text.blank (scan false behind).outside) = startsWithCode behind ∧
      (scan false behind).inside = false := by
  obtain ⟨hopen, -, hslash, -⟩ := h
  have hr := read_of_opening_none .blank (opening_eq_none_of_not_occurs hopen)
  rw [startsWithCode_eq behind hslash]
  exact ⟨congrArg Reading.code hr, congrArg Reading.inside hr⟩

/-! ## One line -/

theorem ofKind_kindWithin (policy : BlankInBlock) (t : Text) :
    Reading.ofKind (kindWithin policy t, true) =
      ⟨false, !(policy = .blank && Text.blank t), true⟩ := by
  unfold kindWithin
  cases (decide (policy = .blank) && Text.blank t) <;> rfl

theorem ofKind_kindInside (policy : BlankInBlock) {t : Text} (h : Plain true t) :
    Reading.ofKind (brace.kindInside policy t) = read policy true t := by
  simp only [kindInside, brace, block]
  unfold read
  rw [scan_inside]
  cases hp : pastClose? true t with
  | none =>
    have hc : Text.occurs ['*', '/'] t = false := by rw [occurs_eq_isSome_pastClose?, hp]; rfl
    rw [codeBehind_of_not_occurs hc, if_neg (by simp), if_neg (by simpa using hc),
      ofKind_kindWithin]
    rfl
  | some behind =>
    have hb := h behind hp
    have hc : Text.occurs ['*', '/'] t = true := by rw [occurs_eq_isSome_pastClose?, hp]; rfl
    have hn : Text.blank t = false :=
      Text.blank_eq_false_of_mem (Text.mem_of_occurs hc (List.mem_cons_self ..)) (by decide)
    obtain ⟨hcode, hin⟩ := scan_plainBehind hb
    rw [codeBehind_of_pastClose? hp hb.2.1]
    simp only [hcode, hin, hn]
    cases startsWithCode behind with
    | true => simp [Reading.ofKind, LineKind.hasCode, LineKind.hasComment]
    | false =>
      rw [if_neg (by simp), if_pos (by simpa using hc)]
      simp [Reading.ofKind, LineKind.hasCode, LineKind.hasComment]

theorem plainKind_brace (t : Text) : brace.plainKind t =
    if Text.blank t = true then .blank
    else if startsWith ['/', '/'] (Text.unindented t) = true then .comment
    else if Text.occurs ['/', '/'] t = true then .mixed else .code := rfl

theorem occurs_of_startsWith_unindented {marker t : Text}
    (h : startsWith marker (Text.unindented t) = true) : Text.occurs marker t = true :=
  Text.occurs_of_occurs_unindented (Text.occurs_iff.mpr (Text.isSome_after?_iff.mp h).isInfix)

theorem ofKind_plainKind (t : Text) : Reading.ofKind (brace.plainKind t, false) =
    ⟨!(Text.blank t || startsWith ['/', '/'] (Text.unindented t)),
      Text.occurs ['/', '/'] t, false⟩ := by
  rw [plainKind_brace]
  cases hb : Text.blank t with
  | true => rw [Text.occurs_of_blank (c := '/') (by decide) (by decide) hb]; rfl
  | false =>
    cases hs : startsWith ['/', '/'] (Text.unindented t) with
    | true => rw [occurs_of_startsWith_unindented hs]; rfl
    | false => cases Text.occurs ['/', '/'] t <;> rfl

theorem startsWithCode_of_alone {t : Text}
    (h : Text.unindented t = [] ∨ startsWith ['/', '/'] (Text.unindented t) = true) :
    startsWithCode t = false := by
  unfold startsWithCode
  rcases h with h | h
  · rw [h]
  · obtain ⟨rest, hr⟩ := Option.isSome_iff_exists.mp h
    rw [Text.after?_eq_some_iff.mp hr]
    rfl

theorem ofKind_kindOutside (policy : BlankInBlock) {t : Text} (hn : '\n' ∉ t) (h : Plain false t) :
    Reading.ofKind (brace.kindOutside t) = read policy false t := by
  cases ho : opening t with
  | none =>
    have hk : brace.kindOutside t = (brace.plainKind t, false) := by
      simp only [kindOutside, brace, block, ho]
      rfl
    rw [hk, ofKind_plainKind, read_of_opening_none policy ho]
  | some rest =>
    have hk : brace.kindOutside t = (if codeBefore t then .blockMixed else .comment,
        !(pastClose? true rest).isSome) := by
      simp only [kindOutside, brace, block, ho, Option.map_some]
      rw [← occurs_eq_isSome_pastClose?]
      rfl
    rw [hk, codeBefore_of_opening ho hn, read_of_opening policy ho, scan_inside]
    cases hp : pastClose? true rest with
    | none => cases startsWith ['/', '*'] (Text.unindented t) <;> rfl
    | some behind =>
      have hb : PlainBehind false t behind := h behind (by rw [pastClose?_outside, ho]; exact hp)
      obtain ⟨hcode, hin⟩ := scan_plainBehind hb
      simp only [hcode, hin]
      cases hs : startsWith ['/', '*'] (Text.unindented t) with
      | false => rfl
      | true => rw [startsWithCode_of_alone (hb.2.2.2 rfl hs)]; rfl

theorem not_mem_strip {line : Text} (hn : '\n' ∉ line) : '\n' ∉ brace.stripper.strip line := by
  rw [Stripper.strip_of_unguarded rfl]
  intro h
  rcases Stripper.mem_shrinkAll h with h | h
  · exact hn h
  · exact absurd h (by decide)

theorem ofKind_classify (policy : BlankInBlock) (inside : Bool) {line : Text} (hn : '\n' ∉ line)
    (h : Plain inside (brace.stripper.strip line)) :
    Reading.ofKind (brace.classify policy inside line) =
      read policy inside (brace.stripper.strip line) := by
  unfold classify
  cases inside with
  | true => exact ofKind_kindInside policy h
  | false => exact ofKind_kindOutside policy (not_mem_strip hn) h

/-! ## Whole runs -/

theorem classifyAll_eq_readAll (policy : BlankInBlock) (inside : Bool) (lines : List Text)
    (hn : ∀ line ∈ lines, '\n' ∉ line) (h : PlainAll inside (lines.map brace.stripper.strip)) :
    (brace.classifyAll policy inside lines).map Reading.ofKind =
      readAll policy inside (lines.map brace.stripper.strip) := by
  induction lines generalizing inside with
  | nil => rfl
  | cons line lines ih =>
    have hk := ofKind_classify policy inside (hn line (by simp)) h.1
    have hs : (brace.classify policy inside line).2 =
        (scan inside (brace.stripper.strip line)).inside := congrArg Reading.inside hk
    rw [classifyAll, List.map_cons, List.map_cons, readAll, hk, hs]
    rw [ih _ (fun l hl => hn l (List.mem_cons_of_mem _ hl)) h.2]

def sampleRun : List Text :=
  ["a / b; /* open".toList, "  ".toList, "x // y".toList, "**/ c / d // e".toList,
    " /* whole */ // f".toList, "f(\"/*\"); //* g".toList]

theorem classifyAll_sampleRun :
    (∀ line ∈ sampleRun, '\n' ∉ line) ∧
      PlainAll false (sampleRun.map brace.stripper.strip) ∧
      (brace.classifyAll .blank false sampleRun).map Reading.ofKind =
        readAll .blank false (sampleRun.map brace.stripper.strip) :=
  ⟨by decide, by decide, classifyAll_eq_readAll .blank false sampleRun (by decide) (by decide)⟩

end LineCensus.Rules.Brace
