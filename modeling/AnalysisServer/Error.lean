import AnalysisServer.Json.Decode

namespace AnalysisServer

inductive AnalysisError where
  | parsing (message : String) (line : Option Nat)
  | programConstruction (message : String)
  | timeout (milliseconds : Nat)
  | workerFailure (message : String)
  | validation (message : String)
  | config (message : String)
  | linterInitialization (message : String)
  | io (message : String)
deriving DecidableEq, Inhabited

inductive ErrorKind where
  | parsing
  | programConstruction
  | timeout
  | workerFailure
  | validation
  | config
  | io
deriving DecidableEq, Inhabited

inductive ErrorCode where
  | parsing
  | failingTypescript
  | generalError
  | linterInitialization
deriving DecidableEq, Inhabited

structure ParsingDetail where
  message : String
  code : ErrorCode
  line : Option UInt32
deriving DecidableEq, Inhabited

inductive ErrorPayload where
  | parsing (detail : ParsingDetail)
  | general (error : String) (kind : Option ErrorKind)
deriving DecidableEq, Inhabited

namespace AnalysisError

def message : AnalysisError → String
  | parsing m _ => "Parsing error: " ++ m
  | programConstruction m => "Program construction failed: " ++ m
  | timeout ms => "Analysis timed out after " ++ toString ms ++ "ms"
  | workerFailure m => "Worker failure: " ++ m
  | validation m => "Validation error: " ++ m
  | config m => "Configuration error: " ++ m
  | linterInitialization m => "Linter initialization error: " ++ m
  | io m => "I/O error: " ++ m

def kind : AnalysisError → ErrorKind
  | parsing .. => .parsing
  | programConstruction _ => .programConstruction
  | timeout _ => .timeout
  | workerFailure _ => .workerFailure
  | validation _ => .validation
  | config _ => .config
  | linterInitialization _ => .config
  | io _ => .io

/-- A project analysis notes such a failure on the file and goes on. -/
def isPerFile : AnalysisError → Bool
  | parsing .. => true
  | programConstruction _ => true
  | io _ => true
  | _ => false

def payload : AnalysisError → ErrorPayload
  | parsing m line => .parsing ⟨m, .parsing, line.map Nat.toUInt32⟩
  | programConstruction m => .parsing ⟨m, .failingTypescript, none⟩
  | linterInitialization m => .parsing ⟨m, .linterInitialization, none⟩
  | e => .general e.message (some e.kind)

end AnalysisError

namespace ErrorKind

def words : List (String × ErrorKind) :=
  [("parsing", parsing), ("program-construction", programConstruction), ("timeout", timeout),
   ("worker-failure", workerFailure), ("validation", validation), ("config", config), ("io", io)]

def word : ErrorKind → String
  | parsing => "parsing"
  | programConstruction => "program-construction"
  | timeout => "timeout"
  | workerFailure => "worker-failure"
  | validation => "validation"
  | config => "config"
  | io => "io"

def toJson (k : ErrorKind) : Json :=
  .str k.word

end ErrorKind

namespace ErrorCode

def words : List (String × ErrorCode) :=
  [("PARSING", parsing), ("FAILING_TYPESCRIPT", failingTypescript),
   ("GENERAL_ERROR", generalError), ("LINTER_INITIALIZATION", linterInitialization)]

def word : ErrorCode → String
  | parsing => "PARSING"
  | failingTypescript => "FAILING_TYPESCRIPT"
  | generalError => "GENERAL_ERROR"
  | linterInitialization => "LINTER_INITIALIZATION"

def toJson (c : ErrorCode) : Json :=
  .str c.word

end ErrorCode

namespace ParsingDetail

def toJson (d : ParsingDetail) : Json :=
  .obj ([("code", d.code.toJson)] ++ Json.optionalField "line" Json.ofUInt32 d.line ++
    [("message", .str d.message)])

def ofJson? (j : Json) : Option ParsingDetail := do
  let field ← j.record? ["message", "code", "line"]
  let message ← Json.required Json.str? (field "message")
  let code ← Json.required (Json.word? .null ErrorCode.words) (field "code")
  let line ← Json.optional Json.uint32? (field "line")
  some ⟨message, code, line⟩

end ParsingDetail

namespace ErrorPayload

def ofMessage (m : String) : ErrorPayload :=
  general m none

def kind? : ErrorPayload → Option ErrorKind
  | parsing _ => some .parsing
  | general _ kind => kind

def toJson : ErrorPayload → Json
  | parsing d => .obj [("parsingError", d.toJson)]
  | general error kind => .obj ([("error", .str error)] ++ Json.optionalField "kind" ErrorKind.toJson kind)

/-- The shape of a payload is told by its fields; a parsing detail is looked for first. -/
def ofJson? (j : Json) : Option ErrorPayload := do
  let field ← j.object?
  match Json.required ParsingDetail.ofJson? (field "parsingError") with
  | some d => some (parsing d)
  | none =>
    let error ← Json.required Json.str? (field "error")
    let kind ← Json.optional (Json.word? .null ErrorKind.words) (field "kind")
    some (general error kind)

end ErrorPayload

end AnalysisServer
