import AnalysisServer.Error
import AnalysisServer.Fingerprint
import AnalysisServer.Json.Reader
import AnalysisServer.Language

namespace AnalysisServer

def Path.toJson (p : Path) : Json :=
  .str p.text

def Path.ofJson? (j : Json) : Option Path :=
  j.str?.map Path.mk

inductive FileType where
  | main
  | test
deriving DecidableEq, Inhabited

namespace FileType

def word : FileType → String
  | main => "MAIN"
  | test => "TEST"

def words : List (String × FileType) :=
  [("MAIN", main), ("TEST", test)]

def toJson (t : FileType) : Json :=
  .str t.word

end FileType

inductive ChangeKind where
  | created
  | modified
  | deleted
deriving DecidableEq, Inhabited

namespace ChangeKind

def word : ChangeKind → String
  | created => "CREATED"
  | modified => "MODIFIED"
  | deleted => "DELETED"

def words : List (String × ChangeKind) :=
  [("CREATED", created), ("MODIFIED", modified), ("DELETED", deleted)]

end ChangeKind

/-- A change on disk that the host reports; on the wire the pair of path and kind. -/
structure FileEvent where
  path : Path
  kind : ChangeKind
deriving DecidableEq, Inhabited

namespace FileEvent

def toJson (e : FileEvent) : Json :=
  .arr [e.path.toJson, .str e.kind.word]

def ofJson? (filler : Json.Filler) : Json → Option FileEvent
  | .arr [p, k] => do
    let path ← Path.ofJson? p
    let kind ← Json.word? filler ChangeKind.words k
    some ⟨path, kind⟩
  | _ => none

end FileEvent

structure Configuration where
  baseDir : Option Path := none
  sonarlint : Bool := false
  jsSuffixes : List String := Classifier.defaultJs
  tsSuffixes : List String := Classifier.defaultTs
  cssSuffixes : List String := Classifier.defaultCss
  tsConfigPaths : List String := []
  exclusions : List String := []
  jsTsExclusions : List String := []
  tests : List String := []
  maxFileSize : UInt64 := 4000
  maxFilesForTypeChecking : UInt64 := 20000
  environments : List String := []
  globals : List String := []
  skipAst : Bool := false
  ignoreHeaderComments : Bool := false
  allowTsParserJsFiles : Bool := false
  fsEvents : List FileEvent := []
deriving DecidableEq, Inhabited

def defaultExclusions : List String :=
  ["**/.*", "**/.*/**", "**/*.d.ts", "**/.git/**", "**/node_modules/**", "**/bower_components/**",
   "**/dist/**", "**/vendor/**", "**/external/**", "**/contrib/**"]

namespace Configuration

def fieldNames : List String :=
  ["baseDir", "sonarlint", "jsSuffixes", "tsSuffixes", "cssSuffixes", "tsConfigPaths", "exclusions",
   "jsTsExclusions", "tests", "maxFileSize", "maxFilesForTypeChecking", "environments", "globals",
   "skipAst", "ignoreHeaderComments", "allowTsParserJsFiles", "fsEvents"]

def toJson (c : Configuration) : Json :=
  .obj [("allowTsParserJsFiles", .bool c.allowTsParserJsFiles),
    ("baseDir", Json.ofOption Path.toJson c.baseDir),
    ("cssSuffixes", Json.strings c.cssSuffixes),
    ("environments", Json.strings c.environments),
    ("exclusions", Json.strings c.exclusions),
    ("fsEvents", Json.ofList FileEvent.toJson c.fsEvents),
    ("globals", Json.strings c.globals),
    ("ignoreHeaderComments", .bool c.ignoreHeaderComments),
    ("jsSuffixes", Json.strings c.jsSuffixes),
    ("jsTsExclusions", Json.strings c.jsTsExclusions),
    ("maxFileSize", Json.ofUInt64 c.maxFileSize),
    ("maxFilesForTypeChecking", Json.ofUInt64 c.maxFilesForTypeChecking),
    ("skipAst", .bool c.skipAst),
    ("sonarlint", .bool c.sonarlint),
    ("tests", Json.strings c.tests),
    ("tsConfigPaths", Json.strings c.tsConfigPaths),
    ("tsSuffixes", Json.strings c.tsSuffixes)]

def ofJson? (filler : Json.Filler) (j : Json) : Option Configuration := do
  let field ← j.record? fieldNames
  let d : Configuration := {}
  let baseDir ← Json.optional Path.ofJson? (field "baseDir")
  let sonarlint ← Json.withDefault d.sonarlint Json.bool? (field "sonarlint")
  let jsSuffixes ← Json.withDefault d.jsSuffixes Json.strings? (field "jsSuffixes")
  let tsSuffixes ← Json.withDefault d.tsSuffixes Json.strings? (field "tsSuffixes")
  let cssSuffixes ← Json.withDefault d.cssSuffixes Json.strings? (field "cssSuffixes")
  let tsConfigPaths ← Json.withDefault d.tsConfigPaths Json.strings? (field "tsConfigPaths")
  let exclusions ← Json.withDefault d.exclusions Json.strings? (field "exclusions")
  let jsTsExclusions ← Json.withDefault d.jsTsExclusions Json.strings? (field "jsTsExclusions")
  let tests ← Json.withDefault d.tests Json.strings? (field "tests")
  let maxFileSize ← Json.withDefault d.maxFileSize Json.uint64? (field "maxFileSize")
  let maxFilesForTypeChecking ←
    Json.withDefault d.maxFilesForTypeChecking Json.uint64?
      (field "maxFilesForTypeChecking")
  let environments ← Json.withDefault d.environments Json.strings? (field "environments")
  let globals ← Json.withDefault d.globals Json.strings? (field "globals")
  let skipAst ← Json.withDefault d.skipAst Json.bool? (field "skipAst")
  let ignoreHeaderComments ←
    Json.withDefault d.ignoreHeaderComments Json.bool? (field "ignoreHeaderComments")
  let allowTsParserJsFiles ←
    Json.withDefault d.allowTsParserJsFiles Json.bool? (field "allowTsParserJsFiles")
  let fsEvents ← Json.withDefault d.fsEvents (Json.listOf (FileEvent.ofJson? filler)) (field "fsEvents")
  some { baseDir, sonarlint, jsSuffixes, tsSuffixes, cssSuffixes, tsConfigPaths, exclusions,
         jsTsExclusions, tests, maxFileSize, maxFilesForTypeChecking, environments, globals, skipAst,
         ignoreHeaderComments, allowTsParserJsFiles, fsEvents }

/-- A configuration from its text, in which no field comes twice. -/
def ofText? (text : String) : Option Configuration := do
  let document ← Document.ofText? text
  let j ← document.record? fieldNames
  ofJson? .null j

def requireBaseDir (c : Configuration) : Except AnalysisError Path :=
  match c.baseDir with
  | some dir => .ok dir
  | none => .error (.validation "baseDir is required")

def exclusionPatterns (c : Configuration) : List String :=
  defaultExclusions ++ c.exclusions ++ c.jsTsExclusions

/-- The limit is given in thousands of bytes and stays within a word. -/
def maxFileBytes (c : Configuration) : Nat :=
  min (c.maxFileSize.toNat * 1000) (UInt64.size - 1)

def classifier (c : Configuration) : Classifier :=
  Classifier.ofSuffixes c.jsSuffixes c.tsSuffixes c.cssSuffixes

/-- A file is test code when it lies under one of the test directories. -/
def fileTypeOf (c : Configuration) (path base : Path) : FileType :=
  let relative := (path.relativeTo? base).getD path.components
  if c.tests.any fun dir ↦ !dir.isEmpty && (Path.mk dir).components.isPrefixOf relative then .test
  else .main

/-- The text from which the discovery key is made: all that decides which files are found. -/
def discoveryText (c : Configuration) (base : Path) : String :=
  let lists := [c.exclusionPatterns, c.jsSuffixes, c.tsSuffixes, c.cssSuffixes, c.tests]
  "\x00".intercalate
    (base.text :: lists.map (fun l ↦ ",".intercalate l) ++ [toString c.maxFileSize.toNat])

def discoveryKey [Digest] (c : Configuration) (base : Path) : String :=
  fingerprintText (c.discoveryText base)

end Configuration

end AnalysisServer
