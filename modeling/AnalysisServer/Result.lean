import AnalysisServer.Configuration

namespace AnalysisServer

structure Issue where
  ruleId : String
  line : UInt32
  column : UInt32
  endLine : Option UInt32 := none
  endColumn : Option UInt32 := none
  message : String
deriving DecidableEq, Inhabited

namespace Issue

def shift (offset : UInt32) (i : Issue) : Issue :=
  { i with line := i.line + offset, endLine := i.endLine.map (· + offset) }

def toJson (i : Issue) : Json :=
  .obj ([("column", Json.ofUInt32 i.column)] ++
    Json.optionalField "endColumn" Json.ofUInt32 i.endColumn ++
    Json.optionalField "endLine" Json.ofUInt32 i.endLine ++
    [("line", Json.ofUInt32 i.line), ("message", .str i.message), ("ruleId", .str i.ruleId)])

def ofJson? (j : Json) : Option Issue := do
  let field ← j.record? ["ruleId", "line", "column", "endLine", "endColumn", "message"]
  let ruleId ← Json.required Json.str? (field "ruleId")
  let line ← Json.required Json.uint32? (field "line")
  let column ← Json.required Json.uint32? (field "column")
  let endLine ← Json.optional Json.uint32? (field "endLine")
  let endColumn ← Json.optional Json.uint32? (field "endColumn")
  let message ← Json.required Json.str? (field "message")
  some { ruleId, line, column, endLine, endColumn, message }

end Issue

structure Metrics where
  lines : Option UInt32 := none
  ncloc : Option (List UInt32) := none
  commentLines : Option (List UInt32) := none
  nosonarLines : List UInt32 := []
deriving DecidableEq, Inhabited

namespace Metrics

def numbers (ns : List UInt32) : Json :=
  Json.ofList Json.ofUInt32 ns

def numbers? : Json → Option (List UInt32) :=
  Json.listOf Json.uint32?

def toJson (m : Metrics) : Json :=
  .obj (Json.optionalField "commentLines" numbers m.commentLines ++
    Json.optionalField "lines" Json.ofUInt32 m.lines ++ Json.optionalField "ncloc" numbers m.ncloc ++
    [("nosonarLines", numbers m.nosonarLines)])

def ofJson? (j : Json) : Option Metrics := do
  let field ← j.record? ["lines", "ncloc", "commentLines", "nosonarLines"]
  let lines ← Json.optional Json.uint32? (field "lines")
  let ncloc ← Json.optional numbers? (field "ncloc")
  let commentLines ← Json.optional numbers? (field "commentLines")
  let nosonarLines ← Json.withDefault [] numbers? (field "nosonarLines")
  some { lines, ncloc, commentLines, nosonarLines }

end Metrics

structure Timings where
  parseTime : UInt64 := 0
  analysisTime : UInt64 := 0
deriving DecidableEq, Inhabited

namespace Timings

def toJson (t : Timings) : Json :=
  .obj [("analysisTime", Json.ofUInt64 t.analysisTime), ("parseTime", Json.ofUInt64 t.parseTime)]

def ofJson? (j : Json) : Option Timings := do
  let field ← j.record? ["parseTime", "analysisTime"]
  let parseTime ← Json.required Json.uint64? (field "parseTime")
  let analysisTime ← Json.required Json.uint64? (field "analysisTime")
  some { parseTime, analysisTime }

end Timings

structure FileOutput where
  issues : List Issue := []
  metrics : Metrics := {}
  programId : Option String := none
  perf : Timings := {}
deriving DecidableEq, Inhabited

namespace FileOutput

def toJson (o : FileOutput) : Json :=
  .obj ([("issues", Json.ofList Issue.toJson o.issues), ("metrics", o.metrics.toJson),
    ("perf", o.perf.toJson)] ++ Json.optionalField "programId" .str o.programId)

def ofJson? (j : Json) : Option FileOutput := do
  let field ← j.record? ["issues", "metrics", "programId", "perf"]
  let issues ← Json.required (Json.listOf Issue.ofJson?) (field "issues")
  let metrics ← Json.required Metrics.ofJson? (field "metrics")
  let programId ← Json.optional Json.str? (field "programId")
  let perf ← Json.required Timings.ofJson? (field "perf")
  some { issues, metrics, programId, perf }

end FileOutput

inductive FileResult where
  | analyzed (output : FileOutput)
  | failed (payload : ErrorPayload)
deriving DecidableEq, Inhabited

namespace FileResult

def isFailed : FileResult → Bool
  | analyzed _ => false
  | failed _ => true

def toJson : FileResult → Json
  | analyzed o => o.toJson
  | failed p => p.toJson

def ofJson? (j : Json) : Option FileResult :=
  match FileOutput.ofJson? j with
  | some o => some (analyzed o)
  | none => (ErrorPayload.ofJson? j).map failed

end FileResult

structure Partial where
  filename : Path
  result : FileResult
deriving DecidableEq, Inhabited

def Partial.toJson (p : Partial) : Json :=
  .obj [("filename", p.filename.toJson), ("result", p.result.toJson)]

structure ProjectMeta where
  warnings : List String := []
  programsCreated : List Path := []
  filesAnalyzed : List Path := []
deriving DecidableEq, Inhabited

def ProjectMeta.toJson (m : ProjectMeta) : Json :=
  .obj [("filesAnalyzed", Json.ofList Path.toJson m.filesAnalyzed),
    ("programsCreated", Json.ofList Path.toJson m.programsCreated),
    ("warnings", Json.strings m.warnings)]

/-- Results that were sent on are not repeated in `files`. -/
structure ProjectOutput where
  files : PathMap FileResult := []
  summary : ProjectMeta := {}
deriving DecidableEq, Inhabited

def ProjectOutput.toJson (o : ProjectOutput) : Json :=
  .obj [("files", Json.ofFields (o.files.map fun e ↦ (e.1.text, e.2.toJson))),
    ("meta", o.summary.toJson)]

structure ProgramInfo where
  programId : String
  files : List Path
  references : List Path
  missing : Bool
deriving DecidableEq, Inhabited

def ProgramInfo.toJson (i : ProgramInfo) : Json :=
  .obj [("files", Json.ofList Path.toJson i.files), ("missingTsConfig", .bool i.missing),
    ("programId", .str i.programId), ("projectReferences", Json.ofList Path.toJson i.references)]

inductive Response where
  | file (output : FileOutput)
  | project (output : ProjectOutput)
  | program (info : ProgramInfo)
  | tsConfigFiles (files references : List Path)
  | tsConfigFile (filename : Path)
  | ack
deriving DecidableEq, Inhabited

def Response.acknowledgement : String :=
  "OK!"

def Response.toJson : Response → Json
  | file o => o.toJson
  | project o => o.toJson
  | program i => i.toJson
  | tsConfigFiles files references =>
    .obj [("files", Json.ofList Path.toJson files),
      ("projectReferences", Json.ofList Path.toJson references)]
  | tsConfigFile p => .obj [("filename", p.toJson)]
  | ack => .str acknowledgement

/-- Which paths are text; what names another one cannot be written out. -/
class TextPaths where
  isText : Path → Bool

instance : TextPaths where
  isText _ := true

variable [TextPaths]

def Partial.toJson? (p : Partial) : Option Json :=
  if TextPaths.isText p.filename then some p.toJson else none

namespace Response

def paths : Response → List Path
  | project o => o.files.map (·.1) ++ o.summary.programsCreated ++ o.summary.filesAnalyzed
  | program i => i.files ++ i.references
  | tsConfigFiles files references => files ++ references
  | tsConfigFile p => [p]
  | file _ | ack => []

def unwritable : AnalysisError :=
  .workerFailure "Failed to serialize response: path contains invalid UTF-8 characters"

def encode (r : Response) : Except AnalysisError Json :=
  if r.paths.all TextPaths.isText then .ok r.toJson else .error unwritable

end Response

end AnalysisServer
