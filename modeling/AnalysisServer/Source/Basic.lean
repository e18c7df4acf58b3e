import AnalysisServer.Error
import AnalysisServer.Language

/-!
Sources and what is found in them. Lines are counted without a bound; results tell them as words of 32 bits, so that
what is said here holds of sources with fewer than 2 ^ 32 lines.
-/

namespace AnalysisServer

/-- A comment with its first and last line, counted from one, and its text between the marks. -/
structure Comment where
  line : Nat
  endLine : Nat
  text : String
deriving DecidableEq, Inhabited

structure ParsedSource where
  lineCount : Nat := 0
  codeLines : List Nat := []
  comments : List Comment := []
deriving DecidableEq, Inhabited

namespace Source

/-- What a language lets a scanner see: its comment marks, and whether strings and brackets,
templates and regular expressions are told apart. -/
structure Dialect where
  lineComment : Option (List Char)
  blockComment : Option (List Char × List Char)
  brackets : Bool
  templates : Bool
  regexes : Bool

namespace Dialect

def script : Dialect :=
  ⟨some ['/', '/'], some (['/', '*'], ['*', '/']), true, true, true⟩

def style : Dialect :=
  ⟨none, some (['/', '*'], ['*', '/']), true, false, false⟩

def markup : Dialect :=
  ⟨none, some (['<', '!', '-', '-'], ['-', '-', '>']), false, false, false⟩

def yaml : Dialect :=
  ⟨some ['#'], none, false, false, false⟩

def ofLanguage : Language → Dialect
  | .js => script
  | .ts => script
  | .css => style
  | .html => markup
  | .yaml => yaml

end Dialect

def lineCount (cs : List Char) : Nat :=
  max 1 (Text.lines cs).length

end Source

end AnalysisServer
