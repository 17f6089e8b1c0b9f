import LineCensus.Report
import Mathlib.Data.List.Basic

/-!
# A reader of JSON

It reads the whole grammar and knows nothing of reports. The strings and numbers of a report are
read back here.
-/

namespace LineCensus

namespace Json

/-- What a document says. A number is a mantissa and a power of ten. -/
inductive Value
  | null
  | bool (b : Bool)
  | number (mantissa : Int) (exponent : Int)
  | string (t : Text)
  | array (items : List Value)
  | object (fields : List (Text × Value))

/-! ## Strings -/

def hexValue? (c : Char) : Option Nat :=
  if c.isDigit then some (c.toNat - '0'.toNat)
  else if 'a' ≤ c ∧ c ≤ 'f' then some (c.toNat - 'a'.toNat + 10)
  else if 'A' ≤ c ∧ c ≤ 'F' then some (c.toNat - 'A'.toNat + 10)
  else none

def unit? (a b c d : Char) : Option Nat := do
  let a ← hexValue? a
  let b ← hexValue? b
  let c ← hexValue? c
  let d ← hexValue? d
  return ((a * 16 + b) * 16 + c) * 16 + d

def escaped? (c : Char) : Option Char :=
  if c = '"' ∨ c = '\\' ∨ c = '/' then some c
  else if c = 'b' then some '\x08'
  else if c = 'f' then some '\x0c'
  else if c = 'n' then some '\n'
  else if c = 'r' then some '\r'
  else if c = 't' then some '\t'
  else none

def push {α : Type} (a : α) : List α × Text → List α × Text
  | (l, r) => (a :: l, r)

/-- The code points and escaped code units of a string up to its closing quote, and what follows. -/
def units? : Text → Option (List Nat × Text)
  | [] => none
  | '"' :: r => some ([], r)
  | '\\' :: 'u' :: a :: b :: c :: d :: r =>
    (unit? a b c d).bind fun unit => (units? r).map (push unit)
  | '\\' :: e :: r => (escaped? e).bind fun c => (units? r).map (push c.toNat)
  | c :: r => if c = '\\' ∨ c.toNat < 0x20 then none else (units? r).map (push c.toNat)

def isHigh (unit : Nat) : Bool :=
  0xD800 ≤ unit && unit < 0xDC00

def isLow (unit : Nat) : Bool :=
  0xDC00 ≤ unit && unit < 0xE000

/-- The text of code units. Surrogates stand in pairs. -/
def joined? : List Nat → Option Text
  | [] => some []
  | [unit] => if isHigh unit ∨ isLow unit then none else some [Char.ofNat unit]
  | unit :: low :: r =>
    if isHigh unit then
      if isLow low then
        (joined? r).map (Char.ofNat (0x10000 + (unit - 0xD800) * 0x400 + (low - 0xDC00)) :: ·)
      else none
    else if isLow unit then none
    else (joined? (low :: r)).map (Char.ofNat unit :: ·)

def string? (t : Text) : Option (Text × Text) := do
  let (units, r) ← units? t
  let t ← joined? units
  return (t, r)

example : string? "\\ud83d\\uDE00\\u0041/\" ".toList = some ("😀A/".toList, [' ']) := by
  decide +kernel

/-! ## Numbers -/

def natural (digits : Text) : Nat :=
  Nat.ofDigitChars 10 digits 0

def fraction? : Text → Option (Text × Text)
  | [] => some ([], [])
  | c :: r =>
    if c = '.' then
      if (r.takeWhile Char.isDigit).isEmpty then none
      else some (r.takeWhile Char.isDigit, r.dropWhile Char.isDigit)
    else some ([], c :: r)

/-- Whether a number has a minus sign, and what follows its sign. -/
def sign : Text → Bool × Text
  | [] => (false, [])
  | c :: r => if c = '-' then (true, r) else if c = '+' then (false, r) else (false, c :: r)

def exponent? : Text → Option (Int × Text)
  | [] => some (0, [])
  | c :: r =>
    if c = 'e' ∨ c = 'E' then
      let (negative, r) := sign r
      let digits := r.takeWhile Char.isDigit
      if digits.isEmpty then none
      else some (if negative then -natural digits else natural digits, r.dropWhile Char.isDigit)
    else some (0, c :: r)

/-- A number without a sign. Only the number zero begins with a zero. -/
def unsigned? (t : Text) : Option ((Nat × Int) × Text) :=
  let whole := t.takeWhile Char.isDigit
  if whole.isEmpty ∨ (whole.head? = some '0' ∧ whole ≠ ['0']) then none
  else do
    let (fraction, t) ← fraction? (t.dropWhile Char.isDigit)
    let (exponent, t) ← exponent? t
    return ((natural (whole ++ fraction), exponent - fraction.length), t)

def number? (t : Text) : Option (Value × Text) :=
  if t.head? = some '-' then
    (unsigned? t.tail).map fun ((mantissa, exponent), r) => (.number (-mantissa) exponent, r)
  else (unsigned? t).map fun ((mantissa, exponent), r) => (.number mantissa exponent, r)

example : number? "-12.50e+1,".toList = some (.number (-1250) (-1), [',']) := by rfl

/-! ## Values -/

def isSpace (c : Char) : Bool :=
  c == ' ' || c == '\t' || c == '\n' || c == '\r'

def skipSpace (t : Text) : Text :=
  t.dropWhile isSpace

def words : List (Text × Value) :=
  [("null".toList, .null), ("true".toList, .bool true), ("false".toList, .bool false)]

def word? (t : Text) : Option (Value × Text) :=
  (words.find? fun w => w.1.isPrefixOf t).map fun w => (w.2, t.drop w.1.length)

section
variable {α : Type} (item : Text → Option (α × Text)) (close : Char)

/-- One or more items with commas between them, up to the mark that closes their list. -/
def series? : Nat → Text → Option (List α × Text)
  | 0, _ => none
  | fuel + 1, t => do
    let (a, t) ← item t
    match skipSpace t with
    | [] => none
    | c :: r =>
      if c = ',' then (series? fuel r).map (push a)
      else if c = close then some ([a], r)
      else none

def items? (t : Text) : Option (List α × Text) :=
  match skipSpace t with
  | [] => none
  | c :: r => if c = close then some ([], r) else series? item close t.length t

end

def member? (value : Text → Option (Value × Text)) (t : Text) :
    Option ((Text × Value) × Text) :=
  match skipSpace t with
  | [] => none
  | c :: r =>
    if c = '"' then do
      let (name, t) ← string? r
      match skipSpace t with
      | [] => none
      | c :: r => if c = ':' then (value r).map fun (v, r) => ((name, v), r) else none
    else none

/-- A value that nests no deeper than the fuel says. -/
def value? : Nat → Text → Option (Value × Text)
  | 0, _ => none
  | fuel + 1, t =>
    match skipSpace t with
    | [] => none
    | c :: r =>
      if c = '"' then (string? r).map fun (t, r) => (.string t, r)
      else if c = '[' then (items? (value? fuel) ']' r).map fun (items, r) => (.array items, r)
      else if c = '\x7b' then
        (items? (member? (value? fuel)) '\x7d' r).map fun (fields, r) => (.object fields, r)
      else if c = '-' ∨ c.isDigit then number? (c :: r)
      else word? (c :: r)

/-- A document: one value with white space around it. No value nests deeper than its text is
long. -/
def read? (t : Text) : Option Value := do
  let (v, r) ← value? t.length t
  if (skipSpace r).isEmpty then some v else none

/-! ## Strings are read back -/

theorem hexValue?_hexDigit : ∀ n < 16, hexValue? (hexDigit n) = some n := by
  decide

theorem units?_escape (c : Char) (r : Text) :
    units? (escape c ++ r) = (units? r).map (push c.toNat) := by
  by_cases hquote : c = '"'
  · rw [hquote]; rfl
  by_cases hslash : c = '\\'
  · rw [hslash]; rfl
  by_cases hback : c = '\x08'
  · rw [hback]; rfl
  by_cases htab : c = '\t'
  · rw [htab]; rfl
  by_cases hline : c = '\n'
  · rw [hline]; rfl
  by_cases hfeed : c = '\x0c'
  · rw [hfeed]; rfl
  by_cases hreturn : c = '\r'
  · rw [hreturn]; rfl
  rw [escape, if_neg hquote, if_neg hslash, if_neg hback, if_neg htab, if_neg hline, if_neg hfeed,
    if_neg hreturn]
  by_cases hcontrol : c.toNat < 0x20
  · have hunit : unit? '0' '0' (hexDigit (c.toNat / 16)) (hexDigit (c.toNat % 16)) =
        some c.toNat := by
      have hzero : hexValue? '0' = some 0 := by decide
      have hhigh := hexValue?_hexDigit (c.toNat / 16) (by omega)
      have hlow := hexValue?_hexDigit (c.toNat % 16) (by omega)
      simp only [unit?, hzero, hhigh, hlow, Option.bind_eq_bind, Option.bind_some, Option.pure_def]
      congr 1
      omega
    rw [if_pos hcontrol]
    exact congrArg (·.bind fun unit => (units? r).map (push unit)) hunit
  · rw [if_neg hcontrol, List.singleton_append, units?]
    · exact if_neg (not_or.mpr ⟨hslash, hcontrol⟩)
    · exact hquote
    · exact fun _ _ _ _ _ h _ => hslash h
    · exact fun _ _ h _ => hslash h

theorem units?_flatMap_escape (t r : Text) :
    units? (t.flatMap escape ++ '"' :: r) = some (t.map Char.toNat, r) := by
  induction t with
  | nil => rfl
  | cons c t ih => rw [List.flatMap_cons, List.append_assoc, units?_escape, ih]; rfl

theorem joined?_cons {unit : Nat} (hhigh : isHigh unit = false) (hlow : isLow unit = false)
    (r : List Nat) : joined? (unit :: r) = (joined? r).map (Char.ofNat unit :: ·) := by
  cases r with
  | nil => simp [joined?, hhigh, hlow]
  | cons low r => simp [joined?, hhigh, hlow]

theorem joined?_toNat (t : Text) : joined? (t.map Char.toNat) = some t := by
  induction t with
  | nil => rfl
  | cons c t ih =>
    have hvalid : c.toNat < 0xD800 ∨ 0xDFFF < c.toNat ∧ c.toNat < 0x110000 := c.valid
    have hhigh : isHigh c.toNat = false := by simp [isHigh]; omega
    have hlow : isLow c.toNat = false := by simp [isLow]; omega
    rw [List.map_cons, joined?_cons hhigh hlow, ih, Char.ofNat_toNat]
    rfl

theorem string?_quoted (t r : Text) :
    string? (t.flatMap escape ++ '"' :: r) = some (t, r) := by
  simp only [string?, units?_flatMap_escape, joined?_toNat, Option.bind_eq_bind, Option.bind_some,
    Option.pure_def]

/-! ## Numbers are read back -/

/-- What follows a value: the end of the text, a comma or a new line. -/
def Follows (r : Text) : Prop :=
  r = [] ∨ (∃ rest, r = ',' :: rest) ∨ ∃ rest, r = '\n' :: rest

theorem natural_decimal (n : Nat) : natural (Text.decimal n) = n :=
  Nat.ofDigitChars_ten_toDigits

theorem decimal_eq_of_head? (n : Nat) (h : (Text.decimal n).head? = some '0') :
    Text.decimal n = ['0'] := by
  induction n using Nat.strongRecOn with
  | ind n ih =>
    rw [Text.decimal, Nat.toDigits_eq_if (by decide)] at h ⊢
    by_cases hn : n < 10
    · rw [if_pos hn] at h ⊢
      rw [List.head?_cons, Option.some.injEq] at h
      rw [h]
    · -- the digits in front of the last are those of a number that is not zero
      rw [if_neg hn, List.head?_append_of_ne_nil _ Nat.toDigits_ne_nil] at h
      have hzero := congrArg natural (ih (n / 10) (by omega) h)
      rw [natural_decimal] at hzero
      exact absurd hzero (by change ¬n / 10 = 0; omega)

section
variable {r : Text} (hr : Follows r)
include hr

theorem takeWhile_isDigit_of_follows : r.takeWhile Char.isDigit = [] := by
  rcases hr with rfl | ⟨rest, rfl⟩ | ⟨rest, rfl⟩ <;> rfl

theorem dropWhile_isDigit_of_follows : r.dropWhile Char.isDigit = r := by
  rcases hr with rfl | ⟨rest, rfl⟩ | ⟨rest, rfl⟩ <;> rfl

theorem fraction?_of_follows : fraction? r = some ([], r) := by
  rcases hr with rfl | ⟨rest, rfl⟩ | ⟨rest, rfl⟩ <;> rfl

theorem exponent?_of_follows : exponent? r = some (0, r) := by
  rcases hr with rfl | ⟨rest, rfl⟩ | ⟨rest, rfl⟩ <;> rfl

theorem unsigned?_decimal (n : Nat) : unsigned? (Text.decimal n ++ r) = some ((n, 0), r) := by
  have hwhole : (Text.decimal n ++ r).takeWhile Char.isDigit = Text.decimal n := by
    rw [List.takeWhile_append_of_pos fun c => Text.isDigit_of_mem_decimal,
      takeWhile_isDigit_of_follows hr, List.append_nil]
  have hrest : (Text.decimal n ++ r).dropWhile Char.isDigit = r := by
    rw [List.dropWhile_append_of_pos fun c => Text.isDigit_of_mem_decimal,
      dropWhile_isDigit_of_follows hr]
  have hform : ¬((Text.decimal n).isEmpty = true ∨
      (Text.decimal n).head? = some '0' ∧ Text.decimal n ≠ ['0']) := by
    rintro (hempty | ⟨hzero, hne⟩)
    · exact Nat.toDigits_ne_nil (List.isEmpty_iff.mp hempty)
    · exact hne (decimal_eq_of_head? n hzero)
  simp only [unsigned?, hwhole, hrest, if_neg hform, fraction?_of_follows hr,
    exponent?_of_follows hr, Option.bind_eq_bind, Option.bind_some, List.append_nil,
    natural_decimal]
  rfl

end

theorem number?_decimal {r : Text} (hr : Follows r) (n : Nat) :
    number? (Text.decimal n ++ r) = some (.number n 0, r) := by
  obtain ⟨c, digits, hd⟩ := List.exists_cons_of_ne_nil (l := Text.decimal n) Nat.toDigits_ne_nil
  have hc : c.isDigit = true := Text.isDigit_of_mem_decimal (hd ▸ List.mem_cons_self ..)
  have hsign : (Text.decimal n ++ r).head? ≠ some '-' := by
    rw [hd, List.cons_append, List.head?_cons, ne_eq, Option.some.injEq]
    rintro rfl
    cases hc
  rw [number?, if_neg hsign, unsigned?_decimal hr]
  rfl

end Json

end LineCensus
