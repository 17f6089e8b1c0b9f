import LineCensus.Glob
import LineCensus.Path

/-! # Failures -/

namespace LineCensus

inductive Obstacle
  | containsNul
  | notFound
  | permissionDenied
  | notDirectory
  | isDirectory
  | nameTooLong
  | tooManyLinks
  deriving DecidableEq, Repr

def Obstacle.message : Obstacle → Text
  | containsNul => "file name contained an unexpected NUL byte".toList
  | notFound => "No such file or directory (os error 2)".toList
  | permissionDenied => "Permission denied (os error 13)".toList
  | notDirectory => "Not a directory (os error 20)".toList
  | isDirectory => "Is a directory (os error 21)".toList
  | nameTooLong => "File name too long (os error 36)".toList
  | tooManyLinks => "Too many levels of symbolic links (os error 40)".toList

inductive Failure
  | unsupportedLanguage (id : Text)
  | unknownExtension (path : Path)
  | unreadable (path : Path) (obstacle : Obstacle)
  | missing (path : Path)
  | badGlob (pattern : Text) (fault : Glob.Fault)
  | unknownPolicy (word : Text)
  | unknownFormat (word : Text)
  | unwritable (path : Path) (obstacle : Obstacle)
  /-- A report in JSON holds paths as text. -/
  | pathNotText
  deriving DecidableEq, Repr

namespace Failure

def message : Failure → Text
  | unsupportedLanguage id => "unsupported language: '".toList ++ id ++ ['\'']
  | unknownExtension path => "no language registered for file: ".toList ++ Path.shown path
  | unreadable path obstacle =>
    "failed to read file '".toList ++ Path.shown path ++ "': ".toList ++ obstacle.message
  | missing path => "path does not exist: ".toList ++ Path.shown path
  | badGlob pattern fault =>
    "invalid glob pattern '".toList ++ pattern ++ "': ".toList ++ fault.message
  | unknownPolicy word => "Unknown blank-in-block policy: ".toList ++ word
  | unknownFormat word => "Unknown output format: ".toList ++ word
  | unwritable path _ => "failed to write report to '".toList ++ Path.shown path ++ ['\'']
  | pathNotText => "path contains invalid UTF-8 characters".toList

/-- What brought the failure about, where that is a failure of its own. -/
def cause? : Failure → Option Obstacle
  | unreadable _ obstacle | unwritable _ obstacle => some obstacle
  | _ => none

/-- The message and behind it that of the cause, even if the message has told it already. -/
def account (f : Failure) : Text :=
  match f.cause? with
  | none => f.message
  | some obstacle => f.message ++ ": ".toList ++ obstacle.message

end Failure

/-- Why a computation gave no result: something failed, or a counter went past its limit. -/
inductive Stop
  | failed (failure : Failure)
  | overflow
  deriving DecidableEq, Repr

end LineCensus
