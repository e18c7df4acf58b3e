import AnalysisServer.Session.Analysis

namespace AnalysisServer

/-- The kinds of single file analysis. -/
inductive FileKind where
  | script
  | style
  | markup
  | yaml
deriving DecidableEq

/-- A project analysis under way. -/
structure ProjectRun where
  configuration : Configuration
  streaming : Bool
  tsParserForJs : Bool
  todo : List FileRecord
  /-- The file that was read and is to be analyzed next. -/
  current : Option SourceUnit := none
  output : ProjectOutput := {}

inductive Task where
  | file (unit : SourceUnit)
  | project (run : ProjectRun)

inductive Progress where
  | done (outcome : Except AnalysisError Response)
  | more (task : Task)

/-- What a step of a task leads to, and a result that is sent on meanwhile. -/
structure Advance where
  progress : Progress
  delivered : Option Partial := none

namespace Session

variable {σ : Type}

def loadBundles (engine : RuleEngine σ) : List Path → Action σ Unit
  | [] => return ()
  | bundle :: rest => do
    let w ← get
    let (r, state) := engine.loadBundle w.disk bundle w.session.engine
    Action.setSession fun s ↦ { s with engine := state }
    Action.ofExcept r
    Action.setSession fun s ↦ { s with loadedBundles := s.loadedBundles ++ [bundle] }
    loadBundles engine rest

def initLinter (engine : RuleEngine σ) (linter : Linter) : Action σ Unit := do
  Action.ofExcept linter.validate
  let s ← Action.session
  loadBundles engine ((s.options.ruleBundles ++ linter.bundles).filter fun b ↦ !s.isLoaded b)
  Action.setSession fun s ↦ { s with linter := some linter }

/-- The path that links lead to, or the path itself if it leads nowhere. -/
def resolved (disk : Disk) (p : Path) : Path :=
  (disk.canonical? p).getD p

def readFile (disk : Disk) (p : Path) : Except AnalysisError String :=
  match disk.readText p with
  | .ok text => .ok text
  | .error e => .error (.io ("Cannot read " ++ p.text ++ ": " ++ e.message))

def directorySize : Nat :=
  4096

def sizeOf (disk : Disk) (p : Path) : Except DiskError Nat :=
  match disk.node p with
  | .ok (.file bytes) => .ok bytes.size
  | .ok _ => .ok directorySize
  | .error e => .error e

def readBounded (disk : Disk) (limit : Nat) (p : Path) : Except AnalysisError (Option String) :=
  match sizeOf disk p with
  | .error e => .error e.toError
  | .ok size => if limit > 0 ∧ size > limit then .ok none else (readFile disk p).map some

def languageFor (classifier : Classifier) (p : Path) (content : String) (kind : FileKind) : Language :=
  match kind, classifier.classify p (some content) with
  | .script, some language => if language.isScript then language else .js
  | .script, none => .js
  | .style, _ => .css
  | .markup, _ => .html
  | .yaml, _ => .yaml

variable [Digest]

def programAmong (file : Path) : List Path → Action σ (Option Program)
  | [] => return none
  | tsconfig :: rest => do
    let s ← Action.session
    let disk ← Action.disk
    let r ← Action.programs fun programs ↦ programs.getOrCreate disk s.classifier tsconfig
    let handle ← Action.ofExcept r
    if handle.program.contains file then return some handle.program
    else programAmong file rest

/-- The program of a script: by id, by the project files it names, or any that contains it. -/
def programFor (input : FileInput) : Action σ (Option Program) := do
  match input.programId with
  | some id =>
    match ← Action.programs fun programs ↦ programs.getById id with
    | some p => return some p
    | none => throw (.programConstruction ("Failed to find program " ++ id))
  | none =>
    let file := resolved (← Action.disk) input.path
    match ← programAmong file input.tsConfigs with
    | some p => return some p
    | none => Action.programs fun programs ↦ programs.findForFile file

def prepareFile (input : FileInput) (kind : FileKind) : Action σ SourceUnit := do
  let s ← Action.session
  if s.linter.isNone then throw linterMissing
  let content ←
    match input.content with
    | some content => pure content
    | none => Action.ofExcept (readFile (← Action.disk) input.path)
  let language := input.language.getD (languageFor s.classifier input.path content kind)
  let program ← if kind = .script then programFor input else pure none
  return {
    path := input.path
    content
    language
    fileType := input.fileType
    ignoreHeaderComments := input.ignoreHeaderComments
    tsParserForJs := s.options.tsParserForJs
    program }

def projectLinter (input : ProjectInput) (baseDir : Path) : Linter :=
  { baseDir
    rules := input.rules
    environments := input.configuration.environments
    globals := input.configuration.globals
    sonarlint := input.configuration.sonarlint
    bundles := input.bundles }

def discoverProject (ctx : DiscoveryContext) : Action σ DiscoveryOutcome := do
  let w ← get
  let (r, stores, disk) := StoreSet.discover ctx w.session.stores w.disk
  set { w with session := { w.session with stores }, disk }
  Action.ofExcept r

/-- Drops the programs that a discovery has made stale: those around a change, and those whose
project file is no longer found. -/
def dropStale (events : List FileEvent) (tsconfigs : List Path) : Action σ Unit := do
  let w ← get
  let previous := w.session.projectTsConfigs
  let programs := events.foldl
    (fun programs event ↦ (programs.invalidateContaining w.disk event.path).2) w.session.programs
  let stale := previous.filter fun old ↦ !tsconfigs.any old.same
  let programs := stale.foldl (fun programs old ↦ (programs.invalidate w.disk old).2) programs
  Action.setSession fun s ↦ { s with programs, projectTsConfigs := tsconfigs }

def createPrograms : List Path → ProjectMeta → Action σ ProjectMeta
  | [], summary => return summary
  | tsconfig :: rest, summary => do
    let s ← Action.session
    let disk ← Action.disk
    match ← Action.programs fun programs ↦ programs.getOrCreate disk s.classifier tsconfig with
    | .ok _ =>
      createPrograms rest { summary with programsCreated := summary.programsCreated ++ [tsconfig] }
    | .error e =>
      let warning := "Failed to create program for " ++ tsconfig.text ++ ": " ++ e.message
      createPrograms rest { summary with warnings := summary.warnings ++ [warning] }

def prepareProject (engine : RuleEngine σ) (input : ProjectInput) (streaming : Bool) :
    Action σ ProjectRun := do
  let configuration := input.configuration
  let baseDir ← Action.ofExcept configuration.requireBaseDir
  if !input.rules.isEmpty then initLinter engine (projectLinter input baseDir)
  if (← Action.session).linter.isNone then throw linterMissing
  Action.setSession fun s ↦ { s with classifier := configuration.classifier }
  let _ ← discoverProject ⟨baseDir, configuration, input.files⟩
  let s ← Action.session
  let tsconfigs ← Action.ofExcept
    ((s.stores.tsconfigs?.map TsConfigStore.tsconfigs).getD (.ok []))
  dropStale configuration.fsEvents tsconfigs
  let summary ← createPrograms tsconfigs {}
  let s ← Action.session
  let records ← Action.ofExcept
    ((s.stores.sources?.map fun store ↦ store.files.read.map FileSet.records).getD (.ok []))
  return {
    configuration
    streaming
    tsParserForJs := s.options.tsParserForJs || configuration.allowTsParserJsFiles
    todo := records
    output := { summary } }

end Session

namespace ProjectRun

def deliver (run : ProjectRun) (p : Path) (result : FileResult) : ProjectRun × Option Partial :=
  let summary := { run.output.summary with
    filesAnalyzed := run.output.summary.filesAnalyzed ++ [p] }
  if run.streaming then
    ({ run with output := { run.output with summary } }, some ⟨p, result⟩)
  else
    ({ run with output := { files := PathMap.insert p result run.output.files, summary } }, none)

def warn (run : ProjectRun) (warning : String) : ProjectRun :=
  let summary := { run.output.summary with warnings := run.output.summary.warnings ++ [warning] }
  { run with output := { run.output with summary } }

/-- The language of a record; a script in JavaScript is looked at once more with its content. -/
def languageOf (classifier : Classifier) (r : FileRecord) (content : String) : Language :=
  match r.language with
  | .js => (classifier.classify r.path (some content)).getD .js
  | language => language

def left (run : ProjectRun) : Nat :=
  2 * run.todo.length + (if run.current.isSome then 1 else 0)

end ProjectRun

namespace Session

variable {σ : Type}

def enterUnit (run : ProjectRun) (r : FileRecord) (content : String) (w : Workspace σ) :
    ProjectRun × Workspace σ :=
  let language := ProjectRun.languageOf w.session.classifier r content
  let (program, programs) :=
    if language.isScript then w.session.programs.findForFile (resolved w.disk r.path)
    else (none, w.session.programs)
  let unit : SourceUnit :=
    { path := r.path
      content
      language
      fileType := r.fileType
      ignoreHeaderComments := run.configuration.ignoreHeaderComments
      tsParserForJs := run.tsParserForJs
      program }
  ({ run with current := some unit }, { w with session := { w.session with programs } })

/-- Takes the next record: reads it, or passes it over if it is too big or cannot be read. -/
def nextRecord (run : ProjectRun) (r : FileRecord) (w : Workspace σ) :
    ProjectRun × Option Partial × Workspace σ :=
  match r.content with
  | some content =>
    let (run, w) := enterUnit run r content w
    (run, none, w)
  | none =>
    match readBounded w.disk run.configuration.maxFileBytes r.path with
    | .ok (some content) =>
      let (run, w) := enterUnit run r content w
      (run, none, w)
    | .ok none =>
      let limit := toString run.configuration.maxFileSize.toNat
      (run.warn ("Skipped " ++ r.path.text ++ ": larger than " ++ limit ++ " KB"), none, w)
    | .error e =>
      let (run, sent) := run.deliver r.path (.failed e.payload)
      (run, sent, w)

/-- The end of a project analysis, which makes its configuration the last one. -/
def finishProject (run : ProjectRun) (w : Workspace σ) : Advance × Workspace σ :=
  ({ progress := .done (.ok (.project run.output)) },
    { w with session := { w.session with lastConfiguration := some run.configuration } })

def stepProject (engine : RuleEngine σ) (run : ProjectRun) (w : Workspace σ) :
    Except Halt (Advance × Workspace σ) :=
  match run.current with
  | some unit =>
    let deliver (result : FileResult) : Except Halt (Advance × Workspace σ) :=
      let (run, sent) := { run with current := none }.deliver unit.path result
      .ok ({ progress := .more (.project run), delivered := sent }, w)
    match analyzeUnit engine w.session unit with
    | .ok output => deliver (.analyzed output)
    | .error (.failed e) =>
      if e.isPerFile then deliver (.failed e.payload)
      else .ok ({ progress := .done (.error e) }, w)
    | .error h => .error h
  | none =>
    match run.todo with
    | [] => .ok (finishProject run w)
    | r :: rest =>
      let (run, sent, w) := nextRecord { run with todo := rest } r w
      .ok ({ progress := .more (.project run), delivered := sent }, w)

/-- One step of a task; it does nothing as long as the engine makes it wait. -/
def step (engine : RuleEngine σ) (task : Task) (w : Workspace σ) :
    Except Halt (Advance × Workspace σ) :=
  match task with
  | .file unit =>
    match analyzeUnit engine w.session unit with
    | .ok output => .ok ({ progress := .done (.ok (.file output)) }, w)
    | .error (.failed e) => .ok ({ progress := .done (.error e) }, w)
    | .error h => .error h
  | .project run => stepProject engine run w

variable [Digest]

def createProgram (tsconfig : Path) : Action σ ProgramInfo := do
  let s ← Action.session
  let disk ← Action.disk
  let r ← Action.programs fun programs ↦ programs.getOrCreate disk s.classifier tsconfig
  let handle ← Action.ofExcept r
  return {
    programId := handle.id
    files := handle.program.files
    references := handle.program.manifest.references
    missing := handle.program.manifest.missing }

/-- Writes a temporary project file that lives as long as the session. -/
def createTsConfigFile (tsconfig : Json) : Action σ Path := do
  if tsconfig.obj?.isNone then throw (.validation "tsconfig must be a JSON object")
  let w ← get
  let (path, disk) ← Action.ofExcept (writeTsConfig w.disk tsconfig)
  set { w with
    disk
    session := { w.session with temporary := w.session.temporary ++ [path] } }
  return path

def start (engine : RuleEngine σ) (request : Request) (streaming : Bool) : Action σ Progress := do
  let file (input : FileInput) (kind : FileKind) : Action σ Progress := do
    let unit ← prepareFile input kind
    return .more (.file unit)
  let answer (r : Response) : Progress := .done (.ok r)
  match request with
  | .initLinter linter =>
    initLinter engine linter
    return answer .ack
  | .analyzeJsTs input => file input .script
  | .analyzeCss input => file input .style
  | .analyzeHtml input => file input .markup
  | .analyzeYaml input => file input .yaml
  | .analyzeProject input =>
    let run ← prepareProject engine input streaming
    return .more (.project run)
  | .createProgram tsconfig =>
    let info ← createProgram tsconfig
    return answer (.program info)
  | .deleteProgram id =>
    let _ ← Action.programs fun programs ↦ programs.delete id
    return answer .ack
  | .tsConfigFiles tsconfig =>
    let s ← Action.session
    let manifest ← Action.ofExcept (Manifest.resolve (← Action.disk) s.classifier tsconfig)
    return answer (.tsConfigFiles manifest.rootFiles manifest.references)
  | .newTsConfig =>
    Action.setSession fun s ↦ { s with programs := s.programs.clear }
    return answer .ack
  | .createTsConfigFile content =>
    let path ← createTsConfigFile content
    return answer (.tsConfigFile path)

def begin (engine : RuleEngine σ) (request : Request) (streaming : Bool) (w : Workspace σ) :
    Progress × Workspace σ :=
  match (start engine request streaming).run.run w with
  | (.ok progress, w) => (progress, w)
  | (.error e, w) => (.done (.error e), w)

omit [Digest] in
def finish (engine : RuleEngine σ) : Nat → Task → Workspace σ → List Partial →
    Except Halt (Except AnalysisError Response) × Workspace σ × List Partial
  | 0, _, w, sent => (.error .waiting, w, sent)
  | fuel + 1, task, w, sent =>
    match step engine task w with
    | .error h => (.error h, w, sent)
    | .ok (advance, w) =>
      let sent := sent ++ advance.delivered.toList
      match advance.progress with
      | .done outcome => (.ok outcome, w, sent)
      | .more task => finish engine fuel task w sent

omit [Digest] in
def stepsLeft : Task → Nat
  | .file _ => 1
  | .project run => run.left + 1

def handle (engine : RuleEngine σ) (request : Request) (streaming : Bool) (w : Workspace σ) :
    Except Halt (Except AnalysisError Response) × Workspace σ × List Partial :=
  match begin engine request streaming w with
  | (.done outcome, w) => (.ok outcome, w, [])
  | (.more task, w) => finish engine (stepsLeft task) task w []

omit [Digest] in
def removeAll (disk : Disk) (ps : List Path) : Disk :=
  ps.foldl Disk.removeFile disk

/-- Lets go of programs, discovered files and temporary files. Files are let go only if some project
analysis was finished. -/
def close (w : Workspace σ) : Workspace σ :=
  let s := { w.session with programs := w.session.programs.clear, projectTsConfigs := [] }
  let (stores, disk) :=
    match s.lastConfiguration with
    | some c =>
      match c.baseDir with
      | some dir =>
        let (_, stores, disk) := StoreSet.clear ⟨dir, c, none⟩ s.stores w.disk
        (stores, disk)
      | none => (s.stores, w.disk)
    | none => (s.stores, w.disk)
  { session := { s with stores, lastConfiguration := none, temporary := [] }
    disk := removeAll disk s.temporary }

omit [Digest] in
def drop (w : Workspace σ) : Disk :=
  let fallback := (w.session.stores.tsconfigs?.bind TsConfigStore.fallback).toList
  removeAll w.disk (w.session.temporary ++ fallback)

end Session

end AnalysisServer
