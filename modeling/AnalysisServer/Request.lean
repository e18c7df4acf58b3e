import AnalysisServer.Linter
import AnalysisServer.Project.Id

namespace AnalysisServer

structure FileInput where
  path : Path
  content : Option String := none
  fileType : FileType := .main
  language : Option Language := none
  tsConfigs : List Path := []
  programId : Option String := none
  ignoreHeaderComments : Bool := false
deriving DecidableEq, Inhabited

namespace FileInput

def toJson (i : FileInput) : Json :=
  .obj [("fileContent", Json.ofOption .str i.content),
    ("filePath", i.path.toJson),
    ("fileType", i.fileType.toJson),
    ("ignoreHeaderComments", .bool i.ignoreHeaderComments),
    ("language", Json.ofOption Language.toJson i.language),
    ("programId", Json.ofOption .str i.programId),
    ("tsConfigs", Json.ofList Path.toJson i.tsConfigs)]

def ofJson? (filler : Json.Filler) (j : Json) : Option FileInput := do
  let field ← j.record?
    ["filePath", "fileContent", "fileType", "language", "tsConfigs", "programId",
      "ignoreHeaderComments"]
  let path ← Json.required Path.ofJson? (field "filePath")
  let content ← Json.optional Json.str? (field "fileContent")
  let fileType ← Json.withDefault .main (Json.word? filler FileType.words) (field "fileType")
  let language ← Json.optional (Json.word? filler Language.words) (field "language")
  let tsConfigs ← Json.withDefault [] (Json.listOf Path.ofJson?) (field "tsConfigs")
  let programId ← Json.optional Json.str? (field "programId")
  let ignoreHeaderComments ← Json.withDefault false Json.bool? (field "ignoreHeaderComments")
  some { path, content, fileType, language, tsConfigs, programId, ignoreHeaderComments }

end FileInput

structure ProjectFile where
  content : Option String := none
  fileType : FileType := .main
  language : Option Language := none
deriving DecidableEq, Inhabited

namespace ProjectFile

def toJson (f : ProjectFile) : Json :=
  .obj [("fileContent", Json.ofOption .str f.content), ("fileType", f.fileType.toJson),
    ("language", Json.ofOption Language.toJson f.language)]

def ofJson? (filler : Json.Filler) (j : Json) : Option ProjectFile := do
  let field ← j.record? ["fileContent", "fileType", "language"]
  let content ← Json.optional Json.str? (field "fileContent")
  let fileType ← Json.withDefault .main (Json.word? filler FileType.words) (field "fileType")
  let language ← Json.optional (Json.word? filler Language.words) (field "language")
  some { content, fileType, language }

end ProjectFile

abbrev ProjectFiles := PathMap ProjectFile

namespace ProjectFiles

def toJson (files : ProjectFiles) : Json :=
  Json.ofFields (files.map fun e ↦ (e.1.text, e.2.toJson))

def ofJson? (filler : Json.Filler) : Json → Option ProjectFiles
  | .obj fields => do
    let entries ← fields.mapM fun f ↦ (ProjectFile.ofJson? filler f.2).map fun v ↦ (Path.mk f.1, v)
    some (PathMap.ofList entries)
  | _ => none

end ProjectFiles

structure ProjectInput where
  configuration : Configuration := {}
  files : Option ProjectFiles := none
  rules : List Rule := []
  bundles : List Path := []
deriving Inhabited

namespace ProjectInput

def toJson (i : ProjectInput) : Json :=
  .obj [("bundles", Json.ofList Path.toJson i.bundles),
    ("configuration", i.configuration.toJson),
    ("files", Json.ofOption ProjectFiles.toJson i.files),
    ("rules", Json.ofList Rule.toJson i.rules)]

def ofJson? (filler : Json.Filler) (j : Json) : Option ProjectInput := do
  let field ← j.record? ["configuration", "files", "rules", "bundles"]
  let configuration ← Json.withDefault {} (Configuration.ofJson? filler) (field "configuration")
  let files ← Json.optional (ProjectFiles.ofJson? filler) (field "files")
  let rules ← Json.withDefault [] (Json.listOf (Rule.ofJson? filler)) (field "rules")
  let bundles ← Json.withDefault [] (Json.listOf Path.ofJson?) (field "bundles")
  some { configuration, files, rules, bundles }

end ProjectInput

inductive Request where
  | initLinter (linter : Linter)
  | analyzeJsTs (input : FileInput)
  | analyzeCss (input : FileInput)
  | analyzeHtml (input : FileInput)
  | analyzeYaml (input : FileInput)
  | analyzeProject (input : ProjectInput)
  | createProgram (tsConfig : Path)
  | deleteProgram (programId : String)
  | tsConfigFiles (tsConfig : Path)
  | newTsConfig
  | createTsConfigFile (content : Json)
deriving Inhabited

/-- The kinds of request by name; an analysis of scripts has four names. -/
inductive RequestKind where
  | initLinter
  | analyzeJsTs
  | analyzeCss
  | analyzeHtml
  | analyzeYaml
  | analyzeProject
  | createProgram
  | deleteProgram
  | tsConfigFiles
  | newTsConfig
  | createTsConfigFile
deriving DecidableEq, Inhabited

namespace RequestKind

def words : List (String × RequestKind) :=
  [("init-linter", initLinter), ("analyze-jsts", analyzeJsTs), ("analyze-js", analyzeJsTs),
   ("analyze-ts", analyzeJsTs), ("analyze-with-program", analyzeJsTs), ("analyze-css", analyzeCss),
   ("analyze-html", analyzeHtml), ("analyze-yaml", analyzeYaml),
   ("analyze-project", analyzeProject), ("create-program", createProgram),
   ("delete-program", deleteProgram), ("tsconfig-files", tsConfigFiles),
   ("new-tsconfig", newTsConfig), ("create-tsconfig-file", createTsConfigFile)]

def word : RequestKind → String
  | initLinter => "init-linter"
  | analyzeJsTs => "analyze-jsts"
  | analyzeCss => "analyze-css"
  | analyzeHtml => "analyze-html"
  | analyzeYaml => "analyze-yaml"
  | analyzeProject => "analyze-project"
  | createProgram => "create-program"
  | deleteProgram => "delete-program"
  | tsConfigFiles => "tsconfig-files"
  | newTsConfig => "new-tsconfig"
  | createTsConfigFile => "create-tsconfig-file"

end RequestKind

namespace Request

def kind : Request → RequestKind
  | initLinter _ => .initLinter
  | analyzeJsTs _ => .analyzeJsTs
  | analyzeCss _ => .analyzeCss
  | analyzeHtml _ => .analyzeHtml
  | analyzeYaml _ => .analyzeYaml
  | analyzeProject _ => .analyzeProject
  | createProgram _ => .createProgram
  | deleteProgram _ => .deleteProgram
  | tsConfigFiles _ => .tsConfigFiles
  | newTsConfig => .newTsConfig
  | createTsConfigFile _ => .createTsConfigFile

def isBroadcast : Request → Bool
  | initLinter _ => true
  | deleteProgram _ => true
  | newTsConfig => true
  | _ => false

/-- Requests with one key go to one worker, the one that holds the program. -/
def affinity [Digest] : Request → Option String
  | createProgram p => some (AnalysisServer.programId p)
  | analyzeJsTs i => i.programId
  | _ => none

def tsConfig? (j : Json) : Option Path := do
  let field ← j.record? ["tsConfig"]
  Json.required Path.ofJson? (field "tsConfig")

def programId? (j : Json) : Option String := do
  let field ← j.record? ["programId"]
  Json.required Json.str? (field "programId")

def data : Request → Option Json
  | initLinter l => some l.toJson
  | analyzeJsTs i => some i.toJson
  | analyzeCss i => some i.toJson
  | analyzeHtml i => some i.toJson
  | analyzeYaml i => some i.toJson
  | analyzeProject i => some i.toJson
  | createProgram p => some (.obj [("tsConfig", p.toJson)])
  | deleteProgram id => some (.obj [("programId", .str id)])
  | tsConfigFiles p => some (.obj [("tsConfig", p.toJson)])
  | newTsConfig => none
  | createTsConfigFile v => some v

def ofData? (filler : Json.Filler) (kind : RequestKind) (data : Option Json) : Option Request :=
  match kind, data with
  | .newTsConfig, none => some newTsConfig
  | .newTsConfig, some .null => some newTsConfig
  | .initLinter, some j => (Linter.ofJson? filler j).map initLinter
  | .analyzeJsTs, some j => (FileInput.ofJson? filler j).map analyzeJsTs
  | .analyzeCss, some j => (FileInput.ofJson? filler j).map analyzeCss
  | .analyzeHtml, some j => (FileInput.ofJson? filler j).map analyzeHtml
  | .analyzeYaml, some j => (FileInput.ofJson? filler j).map analyzeYaml
  | .analyzeProject, some j => (ProjectInput.ofJson? filler j).map analyzeProject
  | .createProgram, some j => (tsConfig? j).map createProgram
  | .deleteProgram, some j => (programId? j).map deleteProgram
  | .tsConfigFiles, some j => (tsConfig? j).map tsConfigFiles
  | .createTsConfigFile, some j => (Json.any? j).map createTsConfigFile
  | _, _ => none

def toEnvelope (r : Request) : Json :=
  .obj (Json.optionalField "data" id r.data ++ [("type", .str r.kind.word)])

/-- In the data of an object, which waits for the kind to be known, an empty object under a word is as
good as null; in an array the kind comes first, and it is not. -/
def ofEnvelope? : Json → Option Request
  | .obj fields => do
    let kind ← Json.required (Json.word? .null RequestKind.words) (fields.lookup "type")
    ofData? .nullOrEmpty kind (fields.lookup "data")
  | .arr [kind, data] => do
    let kind ← Json.word? .null RequestKind.words kind
    ofData? .null kind (some data)
  | _ => none

def invalid : AnalysisError :=
  .validation "Invalid request: not an envelope of a known kind"

def ofEnvelope (j : Json) : Except AnalysisError Request :=
  match ofEnvelope? j with
  | some r => .ok r
  | none => .error invalid

/-- A request from the name of its kind and its data, where null means no data. -/
def ofParts (kind : String) (data : Json) : Except AnalysisError Request :=
  ofEnvelope (.obj ((if data.isNull then [] else [("data", data)]) ++ [("type", .str kind)]))

end Request

end AnalysisServer
