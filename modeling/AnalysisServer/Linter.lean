import AnalysisServer.Configuration
import AnalysisServer.Json.Debug

namespace AnalysisServer

inductive AnalysisMode where
  | normal
  | skip
deriving DecidableEq, Inhabited

namespace AnalysisMode

def word : AnalysisMode → String
  | normal => "DEFAULT"
  | skip => "SKIP"

def words : List (String × AnalysisMode) :=
  [("DEFAULT", normal), ("SKIP", skip)]

end AnalysisMode

structure Rule where
  key : String
  configurations : List Json := []
  fileTypeTargets : List FileType := [.main]
  language : Option Language := none
  analysisModes : List AnalysisMode := []
deriving Inhabited

namespace Rule

def appliesTo (r : Rule) (type : FileType) (language : Language) : Bool :=
  r.fileTypeTargets.contains type && r.language.all (· = language) && !r.analysisModes.contains .skip

def toJson (r : Rule) : Json :=
  .obj [("analysisModes", Json.ofList (fun m ↦ .str m.word) r.analysisModes),
    ("configurations", .arr r.configurations),
    ("fileTypeTargets", Json.ofList FileType.toJson r.fileTypeTargets),
    ("key", .str r.key),
    ("language", Json.ofOption Language.toJson r.language)]

def ofJson? (filler : Json.Filler) (j : Json) : Option Rule := do
  let field ← j.record? ["key", "configurations", "fileTypeTargets", "language", "analysisModes"]
  let key ← Json.required Json.str? (field "key")
  let configurations ← Json.withDefault [] (Json.listOf Json.any?) (field "configurations")
  let fileTypeTargets ←
    Json.withDefault [.main] (Json.listOf (Json.word? filler FileType.words)) (field "fileTypeTargets")
  let language ← Json.optional (Json.word? filler Language.words) (field "language")
  let analysisModes ←
    Json.withDefault [] (Json.listOf (Json.word? filler AnalysisMode.words)) (field "analysisModes")
  some { key, configurations, fileTypeTargets, language, analysisModes }

def bracketed (items : List String) : String :=
  "[" ++ ", ".intercalate items ++ "]"

def targetText : FileType → String
  | .main => "Main"
  | .test => "Test"

def languageText : Language → String
  | .js => "Js"
  | .ts => "Ts"
  | .css => "Css"
  | .html => "Html"
  | .yaml => "Yaml"

def modeText : AnalysisMode → String
  | .normal => "Default"
  | .skip => "Skip"

def debugText (r : Rule) : String :=
  "RuleConfig \x7b key: " ++ Text.quoted r.key ++
    ", configurations: " ++ bracketed (r.configurations.map Json.debugText) ++
    ", file_type_targets: " ++ bracketed (r.fileTypeTargets.map targetText) ++
    ", language: " ++ (match r.language with
      | none => "None"
      | some l => "Some(" ++ languageText l ++ ")") ++
    ", analysis_modes: " ++ bracketed (r.analysisModes.map modeText) ++ " \x7d"

end Rule

structure Linter where
  baseDir : Path
  rules : List Rule := []
  environments : List String := []
  globals : List String := []
  sonarlint : Bool := false
  bundles : List Path := []
deriving Inhabited

namespace Linter

def rulesFor (l : Linter) (type : FileType) (language : Language) : List Rule :=
  l.rules.filter (·.appliesTo type language)

def validate (l : Linter) : Except AnalysisError Unit :=
  match l.rules.find? fun r ↦ (Text.trim r.key.toList).isEmpty with
  | some r => .error (.config ("Rule with empty key in configuration: " ++ r.debugText))
  | none => .ok ()

def toJson (l : Linter) : Json :=
  .obj [("baseDir", l.baseDir.toJson),
    ("bundles", Json.ofList Path.toJson l.bundles),
    ("environments", Json.strings l.environments),
    ("globals", Json.strings l.globals),
    ("rules", Json.ofList Rule.toJson l.rules),
    ("sonarlint", .bool l.sonarlint)]

def ofJson? (filler : Json.Filler) (j : Json) : Option Linter := do
  let field ← j.record? ["baseDir", "rules", "environments", "globals", "sonarlint", "bundles"]
  let baseDir ← Json.required Path.ofJson? (field "baseDir")
  let rules ← Json.withDefault [] (Json.listOf (Rule.ofJson? filler)) (field "rules")
  let environments ← Json.withDefault [] Json.strings? (field "environments")
  let globals ← Json.withDefault [] Json.strings? (field "globals")
  let sonarlint ← Json.withDefault false Json.bool? (field "sonarlint")
  let bundles ← Json.withDefault [] (Json.listOf Path.ofJson?) (field "bundles")
  some { baseDir, rules, environments, globals, sonarlint, bundles }

end Linter

end AnalysisServer
