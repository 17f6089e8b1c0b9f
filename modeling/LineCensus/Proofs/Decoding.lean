import LineCensus.Text.Utf8
import Mathlib.Algebra.GroupWithZero.Nat

/-!
# Decoding

What has been encoded is read back (`decode_encode`). Bytes that encode nothing can still be cut at
their newlines or slashes before they are decoded: an ASCII byte continues no character
(`decode_append_ascii`), and nothing else yields its character (`ascii_not_mem_decode`).
-/

namespace LineCensus.Utf8

/-! ## What one byte does -/

/-- A character begun by its first byte takes no ASCII byte, and will be no ASCII character. -/
structure Begun.WellFormed (b : Begun) : Prop where
  least : 0x80 ≤ b.least
  large : 0x80 ≤ (b.bits * 0x40 + (b.least - 0x80)) * 0x40 ^ b.owed

theorem first_cases (b : UInt8) :
    (b.toNat < 0x80 ∧ first b = ([Char.ofNat b.toNat], none)) ∨
    first b = ([replacement], none) ∨
    ∃ begun : Begun, begun.WellFormed ∧ first b = ([], some begun) := by
  generalize hr : first b = r
  unfold first at hr
  dsimp only at hr
  by_cases h1 : b.toNat < 0x80
  · rw [if_pos h1] at hr
    exact Or.inl ⟨h1, hr.symm⟩
  rw [if_neg h1] at hr
  refine Or.inr ?_
  by_cases h2 : b.toNat < 0xC2
  · rw [if_pos h2] at hr
    exact Or.inl hr.symm
  rw [if_neg h2] at hr
  -- seven ranges of first bytes begin a longer character
  iterate 7
    split at hr
    · exact Or.inr ⟨_, ⟨by dsimp only; omega, by dsimp only; omega⟩, hr.symm⟩
  exact Or.inl hr.symm

theorem step_cases {before : Begun} (hb : before.WellFormed) (b : UInt8) :
    (∃ n, 0x80 ≤ n ∧ step (some before) b = ([Char.ofNat n], none)) ∨
    (∃ after : Begun, after.WellFormed ∧ step (some before) b = ([], some after)) ∨
    step (some before) b = (replacement :: (first b).1, (first b).2) := by
  obtain ⟨hl, hg⟩ := hb
  unfold step
  dsimp only
  split
  · next hr =>
    cases ho : before.owed with
    | zero =>
      rw [ho, Nat.pow_zero, Nat.mul_one] at hg
      exact Or.inl ⟨_, by omega, rfl⟩
    | succ owed =>
      refine Or.inr (Or.inl ⟨_, ⟨Nat.le_refl _, Nat.le_trans hg ?_⟩, rfl⟩)
      rw [ho, Nat.pow_succ', ← Nat.mul_assoc]
      refine Nat.mul_le_mul_right _ ?_
      dsimp only
      omega
  · exact Or.inr (Or.inr rfl)

def Sound (begun : Option Begun) : Prop :=
  ∀ b ∈ begun, b.WellFormed

theorem sound_none : Sound none :=
  fun _ h => nomatch h

theorem sound_first (b : UInt8) : Sound (first b).2 := by
  rcases first_cases b with ⟨-, h⟩ | h | ⟨begun, hw, h⟩
  · rw [h]; exact sound_none
  · rw [h]; exact sound_none
  · rw [h]; rintro _ ⟨⟩; exact hw

theorem sound_step {begun : Option Begun} (hs : Sound begun) (b : UInt8) :
    Sound (step begun b).2 := by
  cases begun with
  | none => exact sound_first b
  | some before =>
    rcases step_cases (hs before rfl) b with ⟨n, -, h⟩ | ⟨after, hw, h⟩ | h
    · rw [h]; exact sound_none
    · rw [h]; rintro _ ⟨⟩; exact hw
    · rw [h]; exact sound_first b

/-! ## ASCII bytes -/

def ascii (a : UInt8) : Char := Char.ofNat a.toNat

theorem toNat_charOfNat {n : Nat} (h : n.isValidChar) : (Char.ofNat n).toNat = n := by
  unfold Char.ofNat
  rw [dif_pos h]
  rfl

section
variable {a : UInt8}

/-- What is no code point becomes U+0000, so that one is left out. -/
theorem ofNat_ne_ascii (h0 : a.toNat ≠ 0) (ha : a.toNat < 0x80) {n : Nat} (h : n ≠ a.toNat) :
    Char.ofNat n ≠ ascii a := by
  have hn : (ascii a).toNat = a.toNat := toNat_charOfNat (Or.inl (by omega))
  intro he
  rw [← he] at hn
  by_cases hv : n.isValidChar
  · exact h ((toNat_charOfNat hv).symm.trans hn)
  · rw [Char.ofNat, dif_neg hv] at hn
    exact h0 hn.symm

theorem step_ascii (ha : a.toNat < 0x80) {begun : Option Begun} (hs : Sound begun) :
    step begun a = (finish begun ++ [ascii a], none) := by
  have hf : first a = ([ascii a], none) := by rw [first, if_pos ha]; rfl
  cases begun with
  | none => exact hf
  | some before =>
    have hl := (hs before rfl).least
    rw [step, if_neg (by omega), hf]
    rfl

theorem decodeFrom_append_ascii (ha : a.toNat < 0x80) {begun : Option Begun} (hs : Sound begun)
    (bytes rest : Bytes) :
    decodeFrom begun (bytes ++ a :: rest) = decodeFrom begun bytes ++ ascii a :: decode rest := by
  induction bytes generalizing begun with
  | nil =>
    rw [List.nil_append, decodeFrom.eq_2, step_ascii ha hs, List.append_assoc]
    rfl
  | cons b r ih =>
    rw [List.cons_append, decodeFrom, decodeFrom, ih (sound_step hs b), List.append_assoc]

/-- An ASCII byte starts the decoder anew, whatever comes before it. -/
theorem decode_append_ascii (ha : a.toNat < 0x80) (bytes rest : Bytes) :
    decode (bytes ++ a :: rest) = decode bytes ++ ascii a :: decode rest :=
  decodeFrom_append_ascii ha sound_none bytes rest

variable (h0 : a.toNat ≠ 0) (ha : a.toNat < 0x80)
include h0 ha

theorem ascii_ne_replacement : ascii a ≠ replacement := by
  have hr : replacement.toNat ≠ a.toNat := by
    rw [show replacement.toNat = 0xFFFD from rfl]
    omega
  exact (ofNat_ne_ascii h0 ha hr).symm

theorem ascii_not_mem_first {b : UInt8} (hb : b ≠ a) : ascii a ∉ (first b).1 := by
  rcases first_cases b with ⟨-, h⟩ | h | ⟨begun, -, h⟩
  · rw [h, List.mem_singleton]
    exact (ofNat_ne_ascii h0 ha fun hn => hb (UInt8.toNat_inj.mp hn)).symm
  · rw [h, List.mem_singleton]; exact ascii_ne_replacement h0 ha
  · rw [h]; exact List.not_mem_nil

theorem ascii_not_mem_step {begun : Option Begun} (hs : Sound begun) {b : UInt8} (hb : b ≠ a) :
    ascii a ∉ (step begun b).1 := by
  cases begun with
  | none => exact ascii_not_mem_first h0 ha hb
  | some before =>
    rcases step_cases (hs before rfl) b with ⟨n, hn, h⟩ | ⟨after, -, h⟩ | h
    · rw [h, List.mem_singleton]; exact (ofNat_ne_ascii h0 ha (by omega)).symm
    · rw [h]; exact List.not_mem_nil
    · rw [h, List.mem_cons, not_or]
      exact ⟨ascii_ne_replacement h0 ha, ascii_not_mem_first h0 ha hb⟩

theorem ascii_not_mem_decodeFrom {begun : Option Begun} (hs : Sound begun) {bytes : Bytes}
    (h : a ∉ bytes) : ascii a ∉ decodeFrom begun bytes := by
  induction bytes generalizing begun with
  | nil =>
    cases begun with
    | none => exact List.not_mem_nil
    | some before =>
      rw [decodeFrom, finish, List.mem_singleton]
      exact ascii_ne_replacement h0 ha
  | cons b r ih =>
    rw [List.mem_cons, not_or] at h
    rw [decodeFrom, List.mem_append, not_or]
    exact ⟨ascii_not_mem_step h0 ha hs (Ne.symm h.1), ih (sound_step hs b) h.2⟩

theorem ascii_not_mem_decode {bytes : Bytes} (h : a ∉ bytes) : ascii a ∉ decode bytes :=
  ascii_not_mem_decodeFrom h0 ha sound_none h

end

/-! ## Every byte leaves a trace -/

theorem step_ne (begun : Option Begun) (b : UInt8) :
    (step begun b).1 ≠ [] ∨ (step begun b).2 ≠ none := by
  have hf : (first b).1 ≠ [] ∨ (first b).2 ≠ none := by
    rcases first_cases b with ⟨-, h⟩ | h | ⟨after, -, h⟩ <;> rw [h] <;> simp
  cases begun with
  | none => exact hf
  | some before =>
    rw [step]
    split
    · cases before.owed <;> simp
    · simp

theorem decodeFrom_ne_nil {begun : Option Begun} {bytes : Bytes} (h : begun ≠ none ∨ bytes ≠ []) :
    decodeFrom begun bytes ≠ [] := by
  induction bytes generalizing begun with
  | nil =>
    cases begun with
    | none => simp at h
    | some before => simp [decodeFrom, finish]
  | cons b r ih =>
    rw [decodeFrom]
    intro he
    obtain ⟨hy, hr⟩ := List.append_eq_nil_iff.mp he
    rcases step_ne begun b with hs | hs
    · exact hs hy
    · exact ih (Or.inl hs) hr

theorem decode_ne_nil {bytes : Bytes} (h : bytes ≠ []) : decode bytes ≠ [] :=
  decodeFrom_ne_nil (Or.inr h)

theorem decode_eq_ascii_cons_iff {a : UInt8} (h0 : a.toNat ≠ 0) (ha : a.toNat < 0x80)
    {bytes : Bytes} {t : Text} :
    decode bytes = ascii a :: t ↔ ∃ rest, bytes = a :: rest ∧ decode rest = t := by
  constructor
  · intro h
    have hm : a ∈ bytes := by
      refine Classical.byContradiction fun hm => ascii_not_mem_decode h0 ha hm ?_
      rw [h]
      exact List.mem_cons_self ..
    obtain ⟨front, rest, rfl, hf⟩ := List.eq_append_cons_of_mem hm
    rw [decode_append_ascii ha] at h
    by_cases hn : front = []
    · rw [hn] at h ⊢
      exact ⟨rest, rfl, (List.cons.inj h).2⟩
    · obtain ⟨c, cs, hc⟩ := List.exists_cons_of_ne_nil (decode_ne_nil hn)
      rw [hc, List.cons_append] at h
      refine absurd ?_ (ascii_not_mem_decode h0 ha hf)
      rw [hc, (List.cons.inj h).1]
      exact List.mem_cons_self ..
  · rintro ⟨rest, rfl, rfl⟩
    exact decode_append_ascii ha [] rest

/-! ## Round trip -/

section
variable {k m bits owed least greatest : Nat} {r : Bytes}

theorem toNat_ofNat {n : Nat} (h : n < 0x100) : (UInt8.ofNat n).toNat = n :=
  UInt8.toNat_ofNat_of_lt' h

theorem decodeFrom_last (hm : m < 0x40) :
    decodeFrom (some ⟨bits, 0, 0x80, 0xBF⟩) (UInt8.ofNat (0x80 + m) :: r) =
      Char.ofNat (bits * 0x40 + m) :: decode r := by
  have hb : (UInt8.ofNat (0x80 + m)).toNat = 0x80 + m := toNat_ofNat (by omega)
  rw [decodeFrom, step, if_pos (by rw [hb]; dsimp only; omega), hb, Nat.add_sub_cancel_left]
  rfl

theorem decodeFrom_next (hm : m < 0x40) (hl : least ≤ 0x80 + m) (hg : 0x80 + m ≤ greatest) :
    decodeFrom (some ⟨bits, owed + 1, least, greatest⟩) (UInt8.ofNat (0x80 + m) :: r) =
      decodeFrom (some ⟨bits * 0x40 + m, owed, 0x80, 0xBF⟩) r := by
  have hb : (UInt8.ofNat (0x80 + m)).toNat = 0x80 + m := toNat_ofNat (by omega)
  rw [decodeFrom, step, if_pos (by rw [hb]; exact ⟨hl, hg⟩), hb, Nat.add_sub_cancel_left]
  rfl

theorem first_two (h : 2 ≤ k) (hk : k < 0x20) :
    first (UInt8.ofNat (0xC0 + k)) = ([], some ⟨k, 0, 0x80, 0xBF⟩) := by
  have hb : (UInt8.ofNat (0xC0 + k)).toNat = 0xC0 + k := toNat_ofNat (by omega)
  rw [first, hb]
  rw [if_neg (by omega), if_neg (by omega), if_pos (by omega), Nat.add_sub_cancel_left]

/-- The second byte must neither lengthen a shorter character nor make a surrogate. -/
theorem first_three (hk : k < 0x10) : ∃ least greatest,
    first (UInt8.ofNat (0xE0 + k)) = ([], some ⟨k, 1, least, greatest⟩) ∧ 0x80 ≤ least ∧
      ∀ m, least ≤ 0x80 + m ∧ 0x80 + m ≤ greatest ↔
        m < 0x40 ∧ (k = 0 → 0x20 ≤ m) ∧ (k = 0xD → m < 0x20) := by
  have hb : (UInt8.ofNat (0xE0 + k)).toNat = 0xE0 + k := toNat_ofNat (by omega)
  rw [first, hb]
  rw [if_neg (by omega), if_neg (by omega), if_neg (by omega)]
  by_cases hz : k = 0
  · rw [if_pos (by omega), hz]
    exact ⟨0xA0, 0xBF, rfl, by omega, by omega⟩
  by_cases hs : k = 0xD
  · rw [if_neg (by omega), if_pos (by omega), hs]
    exact ⟨0x80, 0x9F, rfl, by omega, by omega⟩
  · rw [if_neg (by omega), if_neg (by omega), if_pos (by omega), Nat.add_sub_cancel_left]
    exact ⟨0x80, 0xBF, rfl, by omega, by omega⟩

theorem first_four (hk : k < 5) : ∃ least greatest,
    first (UInt8.ofNat (0xF0 + k)) = ([], some ⟨k, 2, least, greatest⟩) ∧ 0x80 ≤ least ∧
      ∀ m, least ≤ 0x80 + m ∧ 0x80 + m ≤ greatest ↔
        m < 0x40 ∧ (k = 0 → 0x10 ≤ m) ∧ (k = 4 → m < 0x10) := by
  have hb : (UInt8.ofNat (0xF0 + k)).toNat = 0xF0 + k := toNat_ofNat (by omega)
  rw [first, hb]
  rw [if_neg (by omega), if_neg (by omega), if_neg (by omega), if_neg (by omega),
    if_neg (by omega), if_neg (by omega)]
  by_cases hz : k = 0
  · rw [if_pos (by omega), hz]
    exact ⟨0x90, 0xBF, rfl, by omega, by omega⟩
  by_cases hs : k = 4
  · rw [if_neg (by omega), if_neg (by omega), if_pos (by omega), hs]
    exact ⟨0x80, 0x8F, rfl, by omega, by omega⟩
  · rw [if_neg (by omega), if_pos (by omega), Nat.add_sub_cancel_left]
    exact ⟨0x80, 0xBF, rfl, by omega, by omega⟩

theorem decode_cons_of_first {b : UInt8} {begun : Begun} (h : first b = ([], some begun)) :
    decode (b :: r) = decodeFrom (some begun) r := by
  rw [decode, decodeFrom, step, h]
  rfl

theorem decode_two (h : 2 ≤ k) (hk : k < 0x20) :
    decode (UInt8.ofNat (0xC0 + k) :: r) = decodeFrom (some ⟨k, 0, 0x80, 0xBF⟩) r :=
  decode_cons_of_first (first_two h hk)

theorem decode_three (hk : k < 0x10) (hm : m < 0x40) (h0 : k = 0 → 0x20 ≤ m)
    (hD : k = 0xD → m < 0x20) :
    decode (UInt8.ofNat (0xE0 + k) :: UInt8.ofNat (0x80 + m) :: r) =
      decodeFrom (some ⟨k * 0x40 + m, 0, 0x80, 0xBF⟩) r := by
  obtain ⟨least, greatest, hf, -, ht⟩ := first_three hk
  obtain ⟨hl, hg⟩ := (ht m).mpr ⟨hm, h0, hD⟩
  rw [decode_cons_of_first hf, decodeFrom_next hm hl hg]

theorem decode_four (hk : k < 5) (hm : m < 0x40) (h0 : k = 0 → 0x10 ≤ m)
    (h4 : k = 4 → m < 0x10) :
    decode (UInt8.ofNat (0xF0 + k) :: UInt8.ofNat (0x80 + m) :: r) =
      decodeFrom (some ⟨k * 0x40 + m, 1, 0x80, 0xBF⟩) r := by
  obtain ⟨least, greatest, hf, -, ht⟩ := first_four hk
  obtain ⟨hl, hg⟩ := (ht m).mpr ⟨hm, h0, h4⟩
  rw [decode_cons_of_first hf, decodeFrom_next hm hl hg]

end

/-- The code points are those below `0x110000` that are no surrogates. -/
theorem toNat_cases (c : Char) :
    c.toNat < 0xD800 ∨ (0xDFFF < c.toNat ∧ c.toNat < 0x110000) :=
  c.valid

theorem decode_encodeChar_append (c : Char) (r : Bytes) :
    decode (encodeChar c ++ r) = c :: decode r := by
  have hv := toNat_cases c
  have hc : ∀ n, n = c.toNat → Char.ofNat n = c := fun n hn => by rw [hn, Char.ofNat_toNat]
  unfold encodeChar
  dsimp only
  split
  · next h =>
    have hb : (UInt8.ofNat c.toNat).toNat = c.toNat := toNat_ofNat (by omega)
    rw [List.cons_append, decode, decodeFrom, step, first, hb]
    rw [if_pos h, hc _ rfl]
    rfl
  split
  · rw [List.cons_append, List.cons_append, decode_two (by omega) (by omega),
      decodeFrom_last (by omega), hc _ (by omega)]
    rfl
  split
  · rw [List.cons_append, List.cons_append, List.cons_append,
      decode_three (by omega) (by omega) (by omega) (by omega), decodeFrom_last (by omega),
      hc _ (by omega)]
    rfl
  · rw [List.cons_append, List.cons_append, List.cons_append, List.cons_append,
      decode_four (by omega) (by omega) (by omega) (by omega),
      decodeFrom_next (by omega) (by omega) (by omega), decodeFrom_last (by omega),
      hc _ (by omega)]
    rfl

theorem decode_encode (t : Text) : decode (encode t) = t := by
  induction t with
  | nil => rfl
  | cons c r ih => rw [encode, List.flatMap_cons, decode_encodeChar_append, ← encode, ih]

theorem text?_eq_some_iff {bytes : Bytes} {t : Text} : text? bytes = some t ↔ encode t = bytes := by
  unfold text?
  constructor
  · intro h
    obtain ⟨he, ht⟩ := Option.ite_none_right_eq_some.mp h
    rw [← Option.some.inj ht, he]
  · rintro rfl
    rw [decode_encode, if_pos rfl]

end LineCensus.Utf8
