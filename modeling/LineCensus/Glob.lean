import LineCensus.Text.Basic

/-!
# Globs

A pattern is read into tokens and matched against a whole path. All wildcards match `/` too; `**`
stands only for whole path components.
-/

namespace LineCensus

namespace Glob

/-- Part of a bracketed class: one character, or all from the first to the second. -/
inductive Member
  | one (c : Char)
  | span (least greatest : Char)
  deriving DecidableEq, Repr

inductive Token
  | char (c : Char)
  | anyChar
  | anySequence
  | anyComponents
  | anyOf (members : List Member)
  | noneOf (members : List Member)
  deriving DecidableEq, Repr

inductive Flaw
  | wildcards
  | components
  | range
  deriving DecidableEq, Repr

def Flaw.message : Flaw → Text
  | .wildcards =>
    "wildcards are either regular `*` or recursive `**`".toList
  | .components => "recursive wildcards must form a single path component".toList
  | .range => "invalid range pattern".toList

/-- What is wrong with a pattern, and how many characters stand before that place. -/
structure Fault where
  position : Nat
  flaw : Flaw
  deriving DecidableEq, Repr

def Fault.message (f : Fault) : Text :=
  "Pattern syntax error near position ".toList ++ Text.decimal f.position ++ ": ".toList ++
    f.flaw.message

def members : Text → List Member
  | a :: '-' :: b :: r => .span a b :: members r
  | a :: r => .one a :: members r
  | [] => []

def upToBracket : Text → Option (Text × Text)
  | [] => none
  | ']' :: r => some ([], r)
  | c :: r => (upToBracket r).map fun (inside, rest) => (c :: inside, rest)

theorem length_lt_of_upToBracket {t inside rest : Text} (h : upToBracket t = some (inside, rest)) :
    rest.length < t.length := by
  induction t generalizing inside with
  | nil => simp [upToBracket] at h
  | cons c r ih =>
    unfold upToBracket at h
    split at h
    · cases h
    · next he => cases he; cases h; simp
    · next he =>
      cases he
      obtain ⟨q, hq, hp⟩ := Option.map_eq_some_iff.mp h
      cases hp
      exact Nat.lt_succ_of_lt (ih hq)

/-- A class that begins behind `[`. Its first member may be a `]`. -/
def readClass : Text → Option (Token × Text)
  | '!' :: c :: r =>
    (upToBracket r).map fun (inside, rest) => (.noneOf (members (c :: inside)), rest)
  | '!' :: [] => none
  | c :: r =>
    (upToBracket r).map fun (inside, rest) => (.anyOf (members (c :: inside)), rest)
  | [] => none

theorem length_lt_of_readClass {t rest : Text} {token : Token}
    (h : readClass t = some (token, rest)) : rest.length < t.length := by
  unfold readClass at h
  split at h
  · obtain ⟨q, hq, hp⟩ := Option.map_eq_some_iff.mp h
    cases hp
    have := length_lt_of_upToBracket hq
    simp only [List.length_cons]; omega
  · cases h
  · obtain ⟨q, hq, hp⟩ := Option.map_eq_some_iff.mp h
    cases hp
    have := length_lt_of_upToBracket hq
    simp only [List.length_cons]; omega
  · cases h

/-- Two `**` components in a row are one, unless they open the pattern. -/
def addComponents (tokens : List Token) : List Token :=
  match tokens with
  | .anyComponents :: _ :: _ => tokens
  | _ => .anyComponents :: tokens

theorem length_dropWhile_le (p : Char → Bool) (t : Text) :
    (t.dropWhile p).length ≤ t.length :=
  (List.dropWhile_sublist p).length_le

/-- Reads on at `rest`, with `before` the character that stands before it, at `position`; `tokens`
are those read so far, the last one first. -/
def readFrom (before : Option Char) (position : Nat) (tokens : List Token) (rest : Text) :
    Except Fault (List Token) :=
  match rest with
  | [] => .ok tokens.reverse
  | '?' :: r => readFrom (some '?') (position + 1) (.anyChar :: tokens) r
  | '*' :: r =>
    let stars := 1 + (r.takeWhile (· == '*')).length
    have shorter := length_dropWhile_le (· == '*') r
    if stars > 2 then .error ⟨position + 2, .wildcards⟩
    else if stars = 1 then
      readFrom (some '*') (position + 1) (.anySequence :: tokens) (r.dropWhile (· == '*'))
    else if before = none ∨ before = some '/' then
      match h : r.dropWhile (· == '*') with
      | [] => .ok (addComponents tokens).reverse
      | '/' :: more =>
        have : more.length < r.length := by rw [h, List.length_cons] at shorter; omega
        readFrom (some '/') (position + 3) (addComponents tokens) more
      | _ => .error ⟨position + 2, .components⟩
    else .error ⟨position - 1, .components⟩
  | '[' :: r =>
    match h : readClass r with
    | some (token, more) =>
      have := length_lt_of_readClass h
      readFrom (some ']') (position + 1 + (r.length - more.length)) (token :: tokens) more
    | none => .error ⟨position, .range⟩
  | c :: r => readFrom (some c) (position + 1) (.char c :: tokens) r
termination_by rest.length
decreasing_by all_goals simp only [List.length_cons]; omega

end Glob

structure Glob where
  tokens : List Glob.Token
  deriving DecidableEq, Repr

namespace Glob

def read (pattern : Text) : Except Fault Glob :=
  (readFrom none 0 [] pattern).map Glob.mk

def Member.holds (x : Char) : Member → Bool
  | one c => x == c
  | span least greatest => least ≤ x && x ≤ greatest

def Token.accepts (x : Char) : Token → Bool
  | char c => x == c
  | anyChar => true
  | anySequence => false
  | anyComponents => false
  | anyOf ms => ms.any (Member.holds x)
  | noneOf ms => !ms.any (Member.holds x)

/-- How an attempt ends. A text that is used up too early makes longer skips useless. -/
inductive Attempt
  | matched
  | mismatch
  | exhausted
  deriving DecidableEq, Repr

def firstDecided (attempt : Text → Attempt) : List Text → Attempt
  | [] => .mismatch
  | t :: ts =>
    match attempt t with
    | .mismatch => firstDecided attempt ts
    | decided => decided

def tails : Text → List Text
  | [] => [[]]
  | c :: r => (c :: r) :: tails r

def behindSlashes : Text → List Text
  | [] => []
  | c :: r => if c = '/' then r :: behindSlashes r else behindSlashes r

def attempt : List Token → Text → Attempt
  | [], t => if t.isEmpty then .matched else .mismatch
  | .anySequence :: tokens, t => firstDecided (attempt tokens) (tails t)
  | .anyComponents :: tokens, t =>
    match firstDecided (attempt tokens) (t :: behindSlashes t) with
    | .mismatch => attempt tokens []
    | decided => decided
  | _ :: _, [] => .exhausted
  | token :: tokens, x :: r => if token.accepts x then attempt tokens r else .mismatch

def fits (g : Glob) (path : Text) : Bool :=
  attempt g.tokens path == .matched

end Glob

end LineCensus
