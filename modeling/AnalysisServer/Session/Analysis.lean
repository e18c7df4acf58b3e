import AnalysisServer.Embedded.Html
import AnalysisServer.Embedded.Yaml
import AnalysisServer.Session.Basic
import AnalysisServer.Source.LineMetrics
import AnalysisServer.Source.Scanner

namespace AnalysisServer

/-- A file ready to be analyzed. -/
structure SourceUnit where
  path : Path
  content : String
  language : Language
  fileType : FileType
  ignoreHeaderComments : Bool
  tsParserForJs : Bool
  program : Option Program

namespace Session

variable {σ : Type}

def linterMissing : AnalysisError :=
  .linterInitialization "Linter does not exist. Call init-linter first"

/-- The dependencies that a file can see, as far as discovery knows. -/
def dependenciesFor (s : Session σ) (file : Path) : List String :=
  match s.stores.packages? with
  | some packages => packages.dependenciesFor file
  | none => []

def parseLanguage (u : SourceUnit) : Language :=
  if u.language = .js ∧ u.tsParserForJs then .ts else u.language

def ruleContext (s : Session σ) (linter : Linter) (u : SourceUnit) (parsed : ParsedSource) :
    RuleContext :=
  { file := u.path
    source := u.content
    parsed
    language := u.language
    fileType := u.fileType
    rules := linter.rulesFor u.fileType u.language
    dependencies := s.dependenciesFor u.path
    program := u.program
    environments := linter.environments
    globals := linter.globals }

def analyzeSource (engine : RuleEngine σ) (s : Session σ) (u : SourceUnit) : Except Halt FileOutput :=
  match s.linter with
  | none => .error (.failed linterMissing)
  | some linter =>
    match Source.parse (parseLanguage u) u.content with
    | .error e => .error (.failed e)
    | .ok parsed =>
      match engine.evaluate s.engine (s.ruleContext linter u parsed) with
      | .error h => .error h
      | .ok issues =>
        let options : Source.MetricOptions :=
          { lightweight := s.options.lightweight || linter.sonarlint
            ignoreHeaderComments := u.ignoreHeaderComments }
        .ok { issues
              metrics := Source.metrics options parsed
              programId := u.program.map Program.id }

def shiftError (offset : Nat) : AnalysisError → AnalysisError
  | .parsing m line => .parsing m (line.map (· + offset))
  | e => e

def shiftHalt (offset : Nat) : Halt → Halt
  | .failed e => .failed (shiftError offset e)
  | h => h

def snippetUnit (u : SourceUnit) (snippet : Snippet) : SourceUnit :=
  { u with
    content := snippet.code
    language := snippet.language
    ignoreHeaderComments := false
    program := none }

def addSnippet (offset : Nat) (total part : FileOutput) : FileOutput :=
  { total with
    issues := total.issues ++ part.issues.map (Issue.shift offset.toUInt32)
    metrics := { total.metrics with
      nosonarLines :=
        total.metrics.nosonarLines ++ part.metrics.nosonarLines.map (· + offset.toUInt32) }
    perf := ⟨total.perf.parseTime + part.perf.parseTime,
      total.perf.analysisTime + part.perf.analysisTime⟩ }

def analyzeEmbedded (engine : RuleEngine σ) (s : Session σ) (u : SourceUnit) :
    FileOutput → List Snippet → Except Halt FileOutput
  | total, [] => .ok total
  | total, snippet :: rest =>
    match analyzeSource engine s (snippetUnit u snippet) with
    | .error h => .error (shiftHalt snippet.lineOffset h)
    | .ok part => analyzeEmbedded engine s u (addSnippet snippet.lineOffset total part) rest

/-- What stands after the last dot of a file name that does not begin with it. -/
def extension? (p : Path) : Option (List Char) :=
  match p.fileName? with
  | none => none
  | some name =>
    let cs := name.toList
    let ext := (cs.reverse.takeWhile (· ≠ '.')).reverse
    if ext.length + 1 < cs.length then some ext else none

def isVue (p : Path) : Bool :=
  (extension? p).any fun ext ↦ ext.map Text.lowerChar == ['v', 'u', 'e']

def analyzeUnit (engine : RuleEngine σ) (s : Session σ) (u : SourceUnit) : Except Halt FileOutput :=
  match u.language with
  | .html => analyzeEmbedded engine s u {} (Html.scripts u.content)
  | .yaml => analyzeEmbedded engine s u {} (Yaml.snippets u.content)
  | _ =>
    if isVue u.path then analyzeEmbedded engine s u {} (Html.scripts u.content)
    else analyzeSource engine s u

end Session

end AnalysisServer
