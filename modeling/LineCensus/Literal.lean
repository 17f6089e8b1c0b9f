import LineCensus.Text.Basic

/-!
# Literals

Before comment markers are looked for, every literal of a line shrinks to one placeholder. A literal
runs from a delimiter to the nearest one like it on the same line. Tokens that must not be read as
delimiters are hidden behind masks meanwhile.
-/

namespace LineCensus

inductive Literal
  | single
  | double
  | slash
  deriving DecidableEq, Repr

namespace Literal

def delimiter : Literal → Char
  | single => '\''
  | double => '"'
  | slash => '/'

def placeholder : Char := 'X'

/-- Exchanges each part between two delimiters `d`, these included, for the placeholder. Since an
opening delimiter, the characters `held` have come, the last one first; they stay as they are if a
newline or the end comes before the next delimiter. -/
def shrinkFrom (d : Char) : Option Text → Text → Text
  | none, [] => []
  | some held, [] => d :: held.reverse
  | none, c :: r => if c = d then shrinkFrom d (some []) r else c :: shrinkFrom d none r
  | some held, c :: r =>
    if c = d then placeholder :: shrinkFrom d none r
    else if c = '\n' then d :: held.reverse ++ '\n' :: shrinkFrom d none r
    else shrinkFrom d (some (c :: held)) r

def shrink (d : Char) (t : Text) : Text :=
  shrinkFrom d none t

end Literal

/-- Which literals are looked for, one kind after the other, and which tokens none may begin or end
in. -/
structure Stripper where
  literals : List Literal
  guarded : List Text
  deriving DecidableEq, Repr

namespace Stripper

/-- A private-use character that frames masks. -/
def frame : Char := '\uE000'

def mask (i : Nat) : Text :=
  frame :: Text.decimal i ++ [frame]

/-- Exchanges each guarded token for the mask with its number, one token after the other. -/
def hide (s : Stripper) (t : Text) : Text :=
  s.guarded.zipIdx.foldl (fun t (token, i) => Text.replace token (mask i) t) t

def reveal (s : Stripper) (t : Text) : Text :=
  s.guarded.zipIdx.foldl (fun t (token, i) => Text.replace (mask i) token t) t

def shrinkAll (s : Stripper) (t : Text) : Text :=
  s.literals.foldl (fun t l => Literal.shrink l.delimiter t) t

/-- Masks are set only in a line that holds a guarded token and could not be taken for one. -/
def masks (s : Stripper) (line : Text) : Bool :=
  !line.contains frame && s.guarded.any (Text.occurs · line)

def strip (s : Stripper) (line : Text) : Text :=
  if s.literals.isEmpty then line
  else if s.masks line then s.reveal (s.shrinkAll (s.hide line))
  else s.shrinkAll line

end Stripper

end LineCensus
