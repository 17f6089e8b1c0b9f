/-!
# Text

A text is the list of its characters. Searching, cutting and replacing all go from the left and
never count a character twice.
-/

namespace LineCensus

abbrev Text := List Char

/-- The characters with the Unicode property White_Space. -/
def isBlank (c : Char) : Bool :=
  let n := c.toNat
  (0x9 ≤ n && n ≤ 0xD) || n == 0x20 || n == 0x85 || n == 0xA0 || n == 0x1680 ||
    (0x2000 ≤ n && n ≤ 0x200A) || n == 0x2028 || n == 0x2029 || n == 0x202F || n == 0x205F ||
    n == 0x3000

namespace Text

/-- What follows `token` at the start of a text. -/
def after? : Text → Text → Option Text
  | [], t => some t
  | _ :: _, [] => none
  | p :: ps, c :: cs => if p = c then after? ps cs else none

theorem after?_eq_some_iff {token t rest : Text} :
    after? token t = some rest ↔ t = token ++ rest := by
  induction token generalizing t with
  | nil => simp [after?, eq_comm]
  | cons p ps ih =>
    cases t with
    | nil => simp [after?]
    | cons c cs =>
      simp only [after?, List.cons_append, List.cons.injEq]
      split
      · next h => simp [ih, h]
      · next h => simp [Ne.symm h]

theorem after?_append (token rest : Text) : after? token (token ++ rest) = some rest :=
  after?_eq_some_iff.mpr rfl

def occurs (token : Text) : Text → Bool
  | [] => token.isEmpty
  | c :: r => (after? token (c :: r)).isSome || occurs token r

theorem occurs_iff {token t : Text} : occurs token t = true ↔ token <:+: t := by
  induction t with
  | nil => simp [occurs, List.isEmpty_iff]
  | cons c r ih =>
    rw [occurs, Bool.or_eq_true, ih, List.infix_cons_iff]
    have h : (after? token (c :: r)).isSome = true ↔ token <+: c :: r := by
      rw [Option.isSome_iff_exists]
      exact exists_congr fun rest => after?_eq_some_iff.trans eq_comm
    rw [h]

/-- The parts of a text around the occurrences of a token that is not empty; the next `skip`
characters belong to one. -/
def partsAround (token : Text) : Nat → Text → List Text
  | _, [] => [[]]
  | skip + 1, _ :: r => partsAround token skip r
  | 0, c :: r =>
    if token.isPrefixOf (c :: r) then [] :: partsAround token (token.length - 1) r
    else (partsAround token 0 r).modifyHead (c :: ·)

/-- The parts of a text around the occurrences of a token; the empty token stands at both ends and
between any two characters. -/
def pieces (token t : Text) : List Text :=
  if token = [] then [] :: t.map ([·]) ++ [[]] else partsAround token 0 t

def replace (token other t : Text) : Text :=
  other.intercalate (pieces token t)

def replaceFirst? (token other : Text) : Text → Option Text
  | [] => if token.isEmpty then some other else none
  | c :: r =>
    match after? token (c :: r) with
    | some rest => some (other ++ rest)
    | none => (replaceFirst? token other r).map (c :: ·)

theorem isSome_replaceFirst? (token other t : Text) :
    (replaceFirst? token other t).isSome = occurs token t := by
  induction t with
  | nil => simp only [replaceFirst?, occurs]; split <;> simp_all
  | cons c r ih =>
    simp only [replaceFirst?, occurs]
    split
    · next h => simp [h]
    · next h => simp [h, ih]

/-- Cuts behind every `mark`, which stays with the part it ends. -/
def cutBehind {α : Type} [DecidableEq α] (mark : α) : List α → List (List α)
  | [] => []
  | a :: r =>
    if a = mark then [a] :: cutBehind mark r
    else
      match cutBehind mark r with
      | [] => [[a]]
      | part :: parts => (a :: part) :: parts

/-- Cuts at every `mark`, which belongs to no part. -/
def splitAt {α : Type} [DecidableEq α] (mark : α) : List α → List (List α)
  | [] => [[]]
  | a :: r => if a = mark then [] :: splitAt mark r else (splitAt mark r).modifyHead (a :: ·)

def dropEnd (p : Char → Bool) (t : Text) : Text :=
  (t.reverse.dropWhile p).reverse

/-- Whether the first text comes before the second in the order of code points. -/
def before (s t : Text) : Bool :=
  List.lex (s.map Char.toNat) (t.map Char.toNat) Nat.blt

/-! ## Blanks -/

def blank (t : Text) : Bool :=
  t.all isBlank

def unindented (t : Text) : Text :=
  t.dropWhile isBlank

def atWordEnd : Text → Bool
  | [] => true
  | c :: _ => isBlank c

/-! ## Fields and numbers -/

/-- The widest field that a text can be set in. -/
def fieldLimit : Nat := 65535

def padLeft (width : Nat) (t : Text) : Text :=
  List.replicate (width - t.length) ' ' ++ t

def padRight (width : Nat) (t : Text) : Text :=
  t ++ List.replicate (width - t.length) ' '

def decimal (n : Nat) : Text :=
  Nat.toDigits 10 n

theorem isDigit_of_mem_decimal {n : Nat} {c : Char} (h : c ∈ decimal n) : c.isDigit = true :=
  Nat.isDigit_of_mem_toDigits (by decide) (by decide) h

theorem length_decimal_le {n bits : Nat} (hb : 0 < bits) (h : n < 1 <<< bits) :
    (decimal n).length ≤ bits := by
  rw [Nat.one_shiftLeft] at h
  exact (Nat.length_toDigits_le_iff (by decide) hb).mpr
    (Nat.lt_of_lt_of_le h (Nat.pow_le_pow_left (by decide) bits))

end Text

end LineCensus
