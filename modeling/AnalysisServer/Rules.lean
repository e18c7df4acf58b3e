import AnalysisServer.Linter
import AnalysisServer.Project.Program
import AnalysisServer.Result
import AnalysisServer.Source.Basic

/-!
Rule engines. The rules themselves are foreign: an engine is shown a parsed file and what is known
about it, and says what it found.
-/

namespace AnalysisServer

structure RuleContext where
  file : Path
  source : String
  parsed : ParsedSource
  language : Language
  fileType : FileType
  rules : List Rule
  dependencies : List String
  program : Option Program
  environments : List String
  globals : List String

/-- Why an engine gives no issues: it fails, it goes down with the worker, or it is not done yet and
will be asked again. -/
inductive Halt where
  | failed (e : AnalysisError)
  | crashed
  | waiting

structure RuleEngine (σ : Type) where
  initial : σ
  loadBundle : Disk → Path → σ → Except AnalysisError Unit × σ
  evaluate : σ → RuleContext → Except Halt (List Issue)

/-- The engine in use when no other is given. It remembers bundles that exist and finds nothing. -/
def RuleEngine.silent : RuleEngine (List Path) where
  initial := []
  loadBundle disk bundle loaded :=
    if disk.exists? bundle then (.ok (), loaded ++ [bundle])
    else (.error (.linterInitialization ("Rule bundle not found: " ++ bundle.text)), loaded)
  evaluate _ _ := .ok []

end AnalysisServer
