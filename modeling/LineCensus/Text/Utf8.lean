import LineCensus.Text.Basic

/-!
# UTF-8

Decoding takes one byte at a time. It never fails: the longest start of a character that the next
byte cannot continue gives one U+FFFD, and that byte is read anew. A text is cut into lines at its
line breaks; a byte string is cut at its newline bytes first and each part is decoded on its own.
-/

namespace LineCensus

abbrev Bytes := List UInt8

namespace Utf8

def encodeChar (c : Char) : Bytes :=
  let n := c.toNat
  let tail := fun (k : Nat) => UInt8.ofNat (0x80 + k % 0x40)
  if n < 0x80 then [UInt8.ofNat n]
  else if n < 0x800 then [UInt8.ofNat (0xC0 + n / 0x40), tail n]
  else if n < 0x10000 then [UInt8.ofNat (0xE0 + n / 0x1000), tail (n / 0x40), tail n]
  else [UInt8.ofNat (0xF0 + n / 0x40000), tail (n / 0x1000), tail (n / 0x40), tail n]

def encode (t : Text) : Bytes :=
  t.flatMap encodeChar

def size (t : Text) : Nat :=
  (encode t).length

theorem size_cons (c : Char) (t : Text) : size (c :: t) = (encodeChar c).length + size t := by
  simp [size, encode]

theorem length_encodeChar_le (c : Char) : (encodeChar c).length ≤ 4 := by
  simp only [encodeChar]
  split
  · simp
  · split
    · simp
    · split <;> simp

theorem size_le (t : Text) : size t ≤ 4 * t.length := by
  induction t with
  | nil => simp [size, encode]
  | cons c r ih =>
    have := length_encodeChar_le c
    rw [size_cons, List.length_cons]
    omega

theorem length_encodeChar_pos (c : Char) : 0 < (encodeChar c).length := by
  unfold encodeChar
  dsimp only
  split
  · simp
  · split
    · simp
    · split <;> simp

theorem length_le_size (t : Text) : t.length ≤ size t := by
  induction t with
  | nil => exact Nat.zero_le _
  | cons c r ih =>
    have := length_encodeChar_pos c
    rw [size_cons, List.length_cons]
    omega

/-- A character that has begun: the bits read so far, how many bytes have to come after the next
one, and the least and greatest value of the next one. -/
structure Begun where
  bits : Nat
  owed : Nat
  least : Nat
  greatest : Nat

def replacement : Char := '\uFFFD'

/-- The first byte of a character: what it yields at once, and what it begins. -/
def first (b : UInt8) : Text × Option Begun :=
  let n := b.toNat
  if n < 0x80 then ([Char.ofNat n], none)
  else if n < 0xC2 then ([replacement], none)
  else if n < 0xE0 then ([], some ⟨n - 0xC0, 0, 0x80, 0xBF⟩)
  else if n = 0xE0 then ([], some ⟨0, 1, 0xA0, 0xBF⟩)
  else if n = 0xED then ([], some ⟨0xD, 1, 0x80, 0x9F⟩)
  else if n < 0xF0 then ([], some ⟨n - 0xE0, 1, 0x80, 0xBF⟩)
  else if n = 0xF0 then ([], some ⟨0, 2, 0x90, 0xBF⟩)
  else if n < 0xF4 then ([], some ⟨n - 0xF0, 2, 0x80, 0xBF⟩)
  else if n = 0xF4 then ([], some ⟨4, 2, 0x80, 0x8F⟩)
  else ([replacement], none)

def step : Option Begun → UInt8 → Text × Option Begun
  | none, b => first b
  | some begun, b =>
    if begun.least ≤ b.toNat ∧ b.toNat ≤ begun.greatest then
      let bits := begun.bits * 0x40 + (b.toNat - 0x80)
      match begun.owed with
      | 0 => ([Char.ofNat bits], none)
      | owed + 1 => ([], some ⟨bits, owed, 0x80, 0xBF⟩)
    else (replacement :: (first b).1, (first b).2)

/-- What a character left unfinished at the end yields. -/
def finish : Option Begun → Text
  | none => []
  | some _ => [replacement]

def decodeFrom (begun : Option Begun) : Bytes → Text
  | [] => finish begun
  | b :: r => (step begun b).1 ++ decodeFrom (step begun b).2 r

def decode (bytes : Bytes) : Text :=
  decodeFrom none bytes

def text? (bytes : Bytes) : Option Text :=
  if encode (decode bytes) = bytes then some (decode bytes) else none

end Utf8

/-! ## Lines -/

namespace Text

/-- A line without its line break, which is a newline or a carriage return and a newline. -/
def withoutBreak (line : Text) : Text :=
  match line.reverse with
  | '\n' :: '\r' :: r => r.reverse
  | '\n' :: r => r.reverse
  | _ => line

def lines (t : Text) : List Text :=
  (cutBehind '\n' t).map withoutBreak

def isBreak (c : Char) : Bool := c == '\n' || c == '\r'

end Text

/-- The lines of a byte string, without the newlines and carriage returns at their ends. -/
def Bytes.lines (bytes : Bytes) : List Text :=
  (Text.cutBehind 0x0A bytes).map fun line => Text.dropEnd Text.isBreak (Utf8.decode line)

end LineCensus
