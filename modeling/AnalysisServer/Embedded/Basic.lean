import AnalysisServer.Language

namespace AnalysisServer

structure Snippet where
  code : String
  lineOffset : Nat
  language : Language
deriving DecidableEq, Inhabited

end AnalysisServer
