import LineCensus.Counts

/-!
# Code lines per comment line

A ratio is a binary floating-point number. It is shown with two decimals: as the hundredth nearest
to its exact value, an even one when two are equally near.
-/

namespace LineCensus

namespace FixedPoint

/-- The integer nearest to a quotient, an even one when two are equally near. -/
def nearest (num den : Nat) : Nat :=
  let q := num / den
  let twice := 2 * (num % den)
  if twice < den then q
  else if den < twice then q + 1
  else q + q % 2

/-- The fields of a double: sign, biased exponent and fraction. -/
structure Fields where
  negative : Bool
  exponent : Nat
  fraction : Nat
  deriving DecidableEq, Repr

def fields (bits : UInt64) : Fields :=
  let n := bits.toNat
  ⟨n >>> 63 == 1, (n >>> 52) % 2048, n % (1 <<< 52)⟩

/-- The size of a finite double, as a quotient. With exponent zero there is no leading bit, and the
scale is that of exponent one. -/
def quotient (f : Fields) : Nat × Nat :=
  let exponent := max f.exponent 1
  let significand := if f.exponent = 0 then f.fraction else f.fraction + (1 <<< 52)
  (significand <<< (exponent - 1075), 1 <<< (1075 - exponent))

def hundredths (f : Fields) : Nat :=
  nearest (100 * (quotient f).1) (quotient f).2

def size (f : Fields) : Text :=
  if f.exponent = 2047 then "inf".toList
  else
    let h := hundredths f
    Text.decimal (h / 100) ++ '.' :: Text.decimal (h / 10 % 10) ++ Text.decimal (h % 10)

def text (value : Float) : Text :=
  let f := fields value.toBits
  if f.exponent = 2047 ∧ f.fraction ≠ 0 then "NaN".toList
  else if f.negative then '-' :: size f
  else size f

/-- How far an integer is from a quotient, in parts of one by the denominator. -/
def distance (n num den : Nat) : Nat :=
  (n * den - num) + (num - n * den)

theorem distance_div (num den : Nat) : distance (num / den) num den = num % den := by
  have hdiv := Nat.div_add_mod' num den
  simp only [distance]
  omega

theorem distance_div_succ (num : Nat) {den : Nat} (hd : 0 < den) :
    distance (num / den + 1) num den = den - num % den := by
  have hdiv := Nat.div_add_mod' num den
  have hlt := Nat.mod_lt num hd
  have hsucc : (num / den + 1) * den = num / den * den + den := Nat.succ_mul ..
  simp only [distance]
  omega

theorem le_distance {num den n : Nat} (hd : 0 < den) (hq : n ≠ num / den)
    (hs : n ≠ num / den + 1) : den ≤ distance n num den := by
  have hdiv := Nat.div_add_mod' num den
  have hlt := Nat.mod_lt num hd
  simp only [distance]
  rcases Nat.lt_or_gt_of_ne hq with h | h
  · have hm := Nat.mul_le_mul_right den h
    rw [Nat.succ_mul] at hm
    omega
  · have hm := Nat.mul_le_mul_right den (show num / den + 2 ≤ n by omega)
    rw [Nat.add_mul] at hm
    omega

theorem nearest_cases (num den : Nat) :
    (nearest num den = num / den ∧ 2 * (num % den) ≤ den ∧
      (2 * (num % den) = den → nearest num den % 2 = 0)) ∨
    (nearest num den = num / den + 1 ∧ den ≤ 2 * (num % den) ∧
      (2 * (num % den) = den → nearest num den % 2 = 0)) := by
  simp only [nearest]
  split
  · omega
  · split
    · omega
    · omega

/-- Every other integer is farther away, or as far while this one is even. -/
def IsNearest (n num den : Nat) : Prop :=
  ∀ other, other ≠ n → distance n num den < distance other num den ∨
    distance n num den = distance other num den ∧ n % 2 = 0

theorem isNearest_nearest (num : Nat) {den : Nat} (hd : 0 < den) :
    IsNearest (nearest num den) num den := by
  intro n hn
  have hlt := Nat.mod_lt num hd
  have hself := distance_div num den
  have hnext := distance_div_succ num hd
  -- only the integers on the two sides of the quotient are within one of it
  have hcases : n = num / den ∨ n = num / den + 1 ∨ den ≤ distance n num den := by
    by_cases hq : n = num / den
    · exact Or.inl hq
    · by_cases hs : n = num / den + 1
      · exact Or.inr (Or.inl hs)
      · exact Or.inr (Or.inr (le_distance hd hq hs))
  rcases nearest_cases num den with ⟨h, hm, heven⟩ | ⟨h, hm, heven⟩
  · rw [h] at hn heven ⊢
    rcases hcases with rfl | rfl | hfar
    · exact absurd rfl hn
    · omega
    · omega
  · rw [h] at hn heven ⊢
    rcases hcases with rfl | rfl | hfar
    · omega
    · exact absurd rfl hn
    · omega

theorem nearest_le (num den : Nat) : nearest num den ≤ num + 1 := by
  have := Nat.div_le_self num den
  rcases nearest_cases num den with ⟨h, -, -⟩ | ⟨h, -, -⟩
  · omega
  · omega

theorem quotient_pos (f : Fields) : 0 < (quotient f).2 := by
  change 0 < 1 <<< (1075 - max f.exponent 1)
  rw [Nat.one_shiftLeft]
  exact Nat.two_pow_pos _

/-- A finite double is shown as the hundredths nearest to its size. -/
theorem exists_text_of_finite {value : Float} {f : Fields} (hf : fields value.toBits = f)
    (h : f.exponent ≠ 2047) : ∃ n, IsNearest n (100 * (quotient f).1) (quotient f).2 ∧
      text value = (if f.negative then ['-'] else []) ++
        (Text.decimal (n / 100) ++ '.' :: Text.decimal (n / 10 % 10) ++ Text.decimal (n % 10)) := by
  refine ⟨hundredths f, isNearest_nearest _ (quotient_pos f), ?_⟩
  rw [text, hf, size, if_neg h]
  dsimp only
  rw [if_neg fun hnan => h hnan.1]
  cases f.negative with
  | false => rfl
  | true => rfl

theorem text_ne_undefined (value : Float) : text value ≠ "undefined".toList := by
  obtain ⟨f, hf⟩ : ∃ f, fields value.toBits = f := ⟨_, rfl⟩
  by_cases h : f.exponent = 2047
  · rw [text, hf, size, if_pos h]
    split
    · decide
    · split
      · decide
      · decide
  · obtain ⟨n, -, ht⟩ := exists_text_of_finite hf h
    intro hu
    have hmem : '.' ∈ text value := by
      rw [ht]
      simp
    rw [hu] at hmem
    exact absurd hmem (by decide)

theorem shiftLeft_lt {n bits : Nat} (h : n < 1 <<< bits) (k : Nat) :
    n <<< k < 1 <<< (bits + k) := by
  rw [Nat.one_shiftLeft] at h
  rw [Nat.one_shiftLeft, Nat.shiftLeft_eq, Nat.pow_add]
  exact Nat.mul_lt_mul_of_pos_right h (Nat.two_pow_pos k)

theorem one_shiftLeft_le {j k : Nat} (h : j ≤ k) : 1 <<< j ≤ 1 <<< k := by
  rw [Nat.one_shiftLeft, Nat.one_shiftLeft]
  exact Nat.pow_le_pow_right (by decide) h

theorem quotient_lt {f : Fields} (he : f.exponent < 2048) (hf : f.fraction < 1 <<< 52) :
    (quotient f).1 < 1 <<< 1026 := by
  have hs : (if f.exponent = 0 then f.fraction else f.fraction + (1 <<< 52)) < 1 <<< 53 := by
    simp only [Nat.one_shiftLeft] at hf ⊢
    split
    · omega
    · omega
  exact Nat.lt_of_lt_of_le (shiftLeft_lt hs _) (one_shiftLeft_le (by omega))

theorem hundredths_lt {f : Fields} (he : f.exponent < 2048) (hf : f.fraction < 1 <<< 52) :
    hundredths f < 1 <<< 1040 := by
  have hq := quotient_lt he hf
  have hn : hundredths f ≤ 100 * (quotient f).1 + 1 := nearest_le _ _
  have hm : 1 <<< 1040 = 2 ^ 14 * 1 <<< 1026 := by decide
  omega

theorem length_text_le (value : Float) : (text value).length ≤ 3200 := by
  have he : (fields value.toBits).exponent < 2048 := Nat.mod_lt _ (by decide)
  have hf : (fields value.toBits).fraction < 1 <<< 52 := Nat.mod_lt _ (by decide)
  have hs : (size (fields value.toBits)).length ≤ 3121 := by
    simp only [size]
    split
    · decide
    · have hh := hundredths_lt he hf
      generalize hundredths (fields value.toBits) = h at hh
      have hd {n : Nat} (hn : n ≤ h) : (Text.decimal n).length ≤ 1040 :=
        Text.length_decimal_le (by decide) (Nat.lt_of_le_of_lt hn hh)
      have h₁ := hd (Nat.div_le_self h 100)
      have h₂ := hd (Nat.le_trans (Nat.mod_le (h / 10) 10) (Nat.div_le_self h 10))
      have h₃ := hd (Nat.mod_le h 10)
      simp only [List.length_append, List.length_cons]
      omega
  simp only [text]
  split
  · decide
  · split
    · simp only [List.length_cons]; omega
    · omega

end FixedPoint

inductive Ratio
  | defined (value : Float)
  | undefined

namespace Ratio

def text : Ratio → Text
  | defined value => FixedPoint.text value
  | undefined => "undefined".toList

theorem length_text_le (r : Ratio) : r.text.length ≤ 3200 := by
  cases r with
  | defined value => exact FixedPoint.length_text_le value
  | undefined => decide

/-- The text in a field of at least `width` characters, on its right side unless told otherwise. -/
def inField? (width : Nat) (left : Bool) (r : Ratio) : Option Text :=
  if width ≤ Text.fieldLimit then
    some (if left then Text.padRight width r.text else Text.padLeft width r.text)
  else none

end Ratio

def Counts.ratio (c : Counts) : Ratio :=
  if c.comments = 0 then .undefined else .defined (c.code.toFloat / c.comments.toFloat)

theorem Counts.text_ratio_eq_undefined_iff (c : Counts) :
    c.ratio.text = "undefined".toList ↔ c.comments = 0 := by
  unfold Counts.ratio
  constructor
  · intro ht
    by_cases h : c.comments = 0
    · exact h
    · rw [if_neg h] at ht
      exact absurd ht (FixedPoint.text_ne_undefined _)
  · intro h
    rw [if_pos h]
    rfl

example : (Counts.ratio ⟨1, 8, 0, 9⟩).text = "0.12".toList := by decide +kernel

example : (Counts.ratio ⟨3, 8, 0, 11⟩).text = "0.38".toList := by decide +kernel

end LineCensus
