import AnalysisServer.CommandLine
import AnalysisServer.Pool.Affinity
import AnalysisServer.Server

namespace AnalysisServer

namespace UsageError

def message : UsageError → String
  | unreadable => "a value cannot be read"
  | refused => "a value is missing or is not allowed"
  | unknown => "there is an argument that is not expected"
  | repeated => "an argument is given twice"
  | unwanted => "there is a value for an argument that takes none"
  | helpWanted => "arguments: port, host, working directory, and options"
  | versionWanted => "analysis server"

def exitCode : UsageError → UInt32
  | helpWanted | versionWanted => 0
  | _ => 2

end UsageError

namespace CommandLine

/-- Bundles that are named by a relative path are in the working directory. -/
def bundles (c : CommandLine) : List Path :=
  (c.ruleBundles.filter fun b ↦ !b.text.isEmpty).map fun b ↦
    match c.workDir with
    | some dir => dir.join b
    | none => b

def sessionOptions (c : CommandLine) : SessionOptions :=
  { tsParserForJs := c.tsParserForJs
    lightweight := c.lightweight
    debugMemory := c.debugMemory
    ruleBundles := c.bundles }

def emptyDisk : Disk :=
  { root := .dir [("tmp", .dir [])] }

def poolSetup (c : CommandLine) : PoolSetup (List Path) :=
  { engine := .silent
    session := fun _ _ ↦ Session.fresh .silent c.sessionOptions
    affinity := Affinity.ofText }

def server (c : CommandLine) : Server (List Path) :=
  Server.start c.poolSetup c.workers c.timeoutMs c.shutdownGraceMs emptyDisk

end CommandLine

end AnalysisServer
