import LineCensus.Language
import LineCensus.Literal

/-!
# Comment rules

What counts as a comment in each language, on lines whose literals have been shrunk.
-/

namespace LineCensus

/-- How a language marks comments that run over lines. -/
structure BlockRules where
  /-- The line with everything up to its opening marker exchanged for the placeholder. -/
  opened : Text → Option Text
  closes : Text → Bool
  /-- Whether code stands before the comment that opens. -/
  codeBefore : Text → Bool
  /-- Whether code stands behind the comment that ends. -/
  codeBehind : Text → Bool

structure Rules where
  stripper : Stripper
  /-- Whether a line comment is all that the line holds. -/
  onlyComment : Text → Bool
  /-- Whether a line comment stands anywhere. -/
  someComment : Text → Bool
  block : Option BlockRules

namespace Rules

def startsWith (marker t : Text) : Bool :=
  (Text.after? marker t).isSome

def startsWithWord (marker t : Text) : Bool :=
  match Text.after? marker t with
  | some rest => Text.atWordEnd rest
  | none => false

/-! ## Ruby: `#`, and `=begin` to `=end` at the start of lines -/

namespace Ruby

def opened (t : Text) : Option Text :=
  match Text.after? "=begin".toList t with
  | some rest => if Text.atWordEnd rest then some (Literal.placeholder :: rest.drop 1) else none
  | none => none

def block : BlockRules where
  opened := opened
  closes := startsWithWord "=end".toList
  codeBefore _ := false
  codeBehind _ := false

end Ruby

def ruby : Rules where
  stripper := ⟨[.single, .double, .slash], []⟩
  onlyComment t := startsWith ['#'] (Text.unindented t)
  someComment t := t.contains '#'
  block := some Ruby.block

/-! ## Python: `#`, and from one triple quote to the next -/

namespace Python

def tripleQuote : Text := "\"\"\"".toList

def block : BlockRules where
  opened := Text.replaceFirst? tripleQuote [Literal.placeholder]
  closes := Text.occurs tripleQuote
  codeBefore _ := false
  codeBehind _ := false

end Python

def python : Rules where
  stripper := ⟨[.single, .double], [Python.tripleQuote]⟩
  onlyComment t := startsWith ['#'] (Text.unindented t)
  someComment t := t.contains '#'
  block := some Python.block

/-! ## Brace: `//`, and `/*` to `*/`, which may share a line with code -/

namespace Brace

/-- What follows the first marker of a comment, when that is `/*`. -/
def opening : Text → Option Text
  | [] => none
  | '/' :: '*' :: r => some r
  | '/' :: '/' :: _ => none
  | _ :: r => opening r

def opensOnLine (t : Text) : Bool :=
  Text.occurs "/*".toList (t.takeWhile (· != '\n'))

/-- Something that is neither blank nor the comment itself comes first on the line. -/
def codeBefore (t : Text) : Bool :=
  match Text.unindented t with
  | [] => false
  | ['/'] => false
  | '/' :: c :: r => c != '*' && opensOnLine r
  | _ :: r => opensOnLine r

/-- The text starts, after blanks, with something that is no line comment. -/
def startsWithCode (t : Text) : Bool :=
  match Text.unindented t with
  | [] => false
  | ['/'] => false
  | '/' :: c :: _ => c != '/'
  | _ :: _ => true

/-- Some `*/` has code behind it. -/
def codeBehind : Text → Bool
  | [] => false
  | '*' :: '/' :: r => startsWithCode r || codeBehind r
  | _ :: r => codeBehind r

def block : BlockRules where
  opened t := (opening t).map (Literal.placeholder :: ·)
  closes := Text.occurs "*/".toList
  codeBefore := codeBefore
  codeBehind := codeBehind

end Brace

def brace : Rules where
  stripper := ⟨[.single, .double], []⟩
  onlyComment t := startsWith "//".toList (Text.unindented t)
  someComment := Text.occurs "//".toList
  block := some Brace.block

/-! ## Basic: `'`, and `REM` as the first word -/

namespace Basic

def isRemark : Text → Bool
  | r :: e :: m :: rest =>
    r.toLower == 'r' && e.toLower == 'e' && m.toLower == 'm' && Text.atWordEnd rest
  | _ => false

end Basic

def basic : Rules where
  stripper := ⟨[.double], []⟩
  onlyComment t :=
    startsWith ['\''] (Text.unindented t) || Basic.isRemark (Text.unindented t)
  someComment t := t.contains '\''
  block := none

end Rules

def Language.rules : Language → Rules
  | ruby => Rules.ruby
  | python => Rules.python
  | brace => Rules.brace
  | basic => Rules.basic

def Language.hasBlocks (l : Language) : Bool :=
  l.rules.block.isSome

end LineCensus
