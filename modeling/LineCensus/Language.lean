import LineCensus.Failure
import LineCensus.Text.Lowercase

/-!
# Languages

The words that languages go by, and the extensions of their files. Registering an extension again
replaces what it stood for.
-/

namespace LineCensus

inductive Language
  | ruby
  | python
  | brace
  | basic
  deriving DecidableEq, Repr

namespace Language

def all : List Language := [ruby, python, brace, basic]

def name : Language → Text
  | ruby => "ruby".toList
  | python => "python".toList
  | brace => "brace".toList
  | basic => "basic".toList

def words : Language → List Text
  | ruby => [name ruby, "rb".toList]
  | python => [name python, "py".toList]
  | brace =>
    [name brace, "c".toList, "cpp".toList, "c++".toList, "cplusplus".toList, "csharp".toList,
      "cs".toList, "java".toList]
  | basic => [name basic, "vb".toList, "vbnet".toList, "vbscript".toList]

def named? (id : Text) : Option Language :=
  all.find? fun l => l.words.contains (Text.lowercase id)

def named (id : Text) : Except Failure Language :=
  match named? id with
  | some l => .ok l
  | none => .error (.unsupportedLanguage id)

end Language

structure Extensions where
  entries : List (Text × Language)
  nodup : (entries.map Prod.fst).Nodup

namespace Extensions

def empty : Extensions := ⟨[], List.nodup_nil⟩

def insert (m : Extensions) (extension : Text) (language : Language) : Extensions where
  entries := (extension, language) :: m.entries.filter (·.1 ≠ extension)
  nodup := by
    rw [List.map_cons, List.nodup_cons]
    exact ⟨by simp, m.nodup.sublist (List.filter_sublist.map Prod.fst)⟩

/-- Registers an extension, which may be given with its dot and in any case. -/
def register (m : Extensions) (extension : Text) (language : Language) : Extensions :=
  m.insert (Text.lowercase (extension.dropWhile (· == '.'))) language

def standardFor : Language → List String
  | .ruby => ["rb", "rbw", "rake", "gemspec"]
  | .python => ["py", "pyw"]
  | .brace => ["c", "h", "cc", "cpp", "cxx", "hh", "hpp", "hxx", "cs", "java"]
  | .basic => ["vb", "vbs", "bas", "cls", "frm"]

def standard : Extensions :=
  Language.all.foldl
    (fun m l => (standardFor l).foldl (fun m extension => m.insert extension.toList l) m) empty

def language? (m : Extensions) (extension : Text) : Option Language :=
  m.entries.lookup (Text.lowercase extension)

/-- An extension that is no text stands for nothing. -/
def languageOfPath? (m : Extensions) (path : Path) : Option Language :=
  ((Path.extension? path).bind Utf8.text?).bind m.language?

def extensionsFor (m : Extensions) (language : Language) : List Text :=
  ((m.entries.filter (·.2 = language)).map Prod.fst).mergeSort fun a b => !Text.before b a

end Extensions

end LineCensus
