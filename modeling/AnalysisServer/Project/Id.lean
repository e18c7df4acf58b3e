import AnalysisServer.Fingerprint
import AnalysisServer.Path

/-!
Program ids. The id belongs to a path as it is written, so that it can be computed without looking
at the disk.
-/

namespace AnalysisServer

def programId [Digest] (tsconfig : Path) : String :=
  "program-" ++ String.ofList ((fingerprintText tsconfig.text).toList.take 16)

end AnalysisServer
