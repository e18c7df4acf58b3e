import AnalysisServer.Configuration
import AnalysisServer.Disk
import AnalysisServer.Glob
import AnalysisServer.Json.Lenient
import AnalysisServer.Json.Printer
import AnalysisServer.Project.Id

/-!
Project files. A manifest is what a project file says about its project: the root files, the
references to other projects and the compiler options.
-/

namespace AnalysisServer

structure Manifest where
  path : Path
  rootFiles : List Path
  references : List Path
  compilerOptions : Json
  /-- There was no such file, and an empty one was taken in its place. -/
  missing : Bool
  fingerprint : String
deriving Inhabited

namespace Manifest

def defaultInclude : List String :=
  ["**/*"]

def defaultExclude : List String :=
  ["node_modules", "bower_components", "jspm_packages"]

def stringList (fields : Json.Fields) (name : String) : Except AnalysisError (Option (List String)) :=
  match fields.lookup name with
  | none => .ok none
  | some .null => .ok none
  | some (.arr items) =>
    match items.mapM Json.str? with
    | some ss => .ok (some ss)
    | none => .error (.programConstruction s!"'{name}' must only contain strings")
  | some _ => .error (.programConstruction s!"'{name}' must be an array")

def hasGlob (pattern : String) : Bool :=
  pattern.toList.any fun c ↦ c == '*' || c == '?' || c == '[' || c == '{'

/-- The patterns under a directory, as absolute patterns. One without wild cards also stands for
all that is below it. -/
def absolutePatterns (dir : Path) (patterns : List String) : List String :=
  patterns.flatMap fun pattern ↦
    let absolute := (dir.join ⟨pattern⟩).normalize.text
    let trimmed := (absolute.toList.reverse.dropWhile (· = '/')).reverse
    if hasGlob pattern then [absolute] else [absolute, String.ofList trimmed ++ "/**"]

def literalFront (dir : Path) (pattern : String) : Path :=
  let path := (dir.join ⟨pattern⟩).normalize
  let names := (Path.resolveDots [] path.components).takeWhile fun s ↦ !hasGlob s
  Path.ofNames path.isAbsolute names

def walkRoot? (disk : Disk) (dir : Path) (pattern : String) : Option Path :=
  let front := literalFront dir pattern
  let root := if disk.isFile front then front.parent?.getD ⟨""⟩ else front
  if disk.isDir root then some root else none

def walkRoots (disk : Disk) (dir : Path) (patterns : List String) : List Path :=
  let roots := Path.sorted (patterns.filterMap (walkRoot? disk dir))
  roots.filter fun r ↦ !roots.any fun other ↦ !other.same r && r.startsWith other

mutual

/-- The files at and below a node that are not excluded; links are not followed. -/
def filesAt (excluded : Path → Bool) (path : Path) : Node → List Path
  | .file _ => if excluded path then [] else [path]
  | .link _ => []
  | .dir es => if excluded path then [] else filesIn excluded path es

def filesIn (excluded : Path → Bool) (path : Path) : List (String × Node) → List Path
  | [] => []
  | (s, n) :: es => filesAt excluded (path.joinName s) n ++ filesIn excluded path es

end

def filesBelow (disk : Disk) (excluded : Path → Bool) (root : Path) : List Path :=
  match disk.node root with
  | .ok (.dir es) => filesIn excluded root es
  | _ => []

def includedFiles (disk : Disk) (classifier : Classifier) (dir : Path)
    (inclusions exclusions : List String) : List Path :=
  let includes := Glob.set (absolutePatterns dir inclusions)
  let excludes := Glob.set (absolutePatterns dir exclusions)
  let found := (walkRoots disk dir inclusions).flatMap
    (filesBelow disk fun p ↦ Glob.anyMatch excludes p.text)
  found.filter fun p ↦ classifier.isScript p && Glob.anyMatch includes p.text

def listedFile (disk : Disk) (dir : Path) (file : String) : Except AnalysisError Path :=
  let path := (dir.join ⟨file⟩).normalize
  if disk.isFile path then .ok path
  else
    let shown := path.text
    let owner := (dir.joinName "tsconfig.json").text
    .error (.programConstruction s!"File '{shown}' listed in {owner} not found")

def resolveRootFiles (disk : Disk) (classifier : Classifier) (dir : Path) (fields : Json.Fields) :
    Except AnalysisError (List Path) := do
  let files ← stringList fields "files"
  let given ← stringList fields "include"
  let inclusions :=
    match given, files with
    | some patterns, _ => patterns
    | none, some _ => []
    | none, none => defaultInclude
  let exclusions ← stringList fields "exclude"
  let listed ← (files.getD []).mapM (listedFile disk dir)
  return Path.sorted
    (listed ++ includedFiles disk classifier dir inclusions (exclusions.getD defaultExclude))

def reference? (disk : Disk) (dir : Path) (j : Json) : Option Path := do
  let v ← j.get? "path"
  let reference ← v.str?
  let path := (dir.join ⟨reference⟩).normalize
  disk.canonical? (if disk.isDir path then path.joinName "tsconfig.json" else path)

def resolveReferences (disk : Disk) (dir : Path) (fields : Json.Fields) : List Path :=
  match fields.lookup "references" with
  | some (.arr items) => items.filterMap (reference? disk dir)
  | _ => []

def fingerprintSource (text : String) (options : Json) (rootFiles : List Path) : String :=
  "\x00".intercalate (text :: options.compact :: rootFiles.map Path.text)

/-- The text of a project file with the path it is found at. One that does not exist counts as empty. -/
structure Source where
  path : Path
  text : String
  missing : Bool

def Source.read (disk : Disk) (path : Path) : Except AnalysisError Source :=
  match disk.readText path with
  | .ok text => .ok { path, text, missing := false }
  | .error e => .error e.toError

def Source.absent (tsconfig : Path) : Source :=
  { path := tsconfig.normalize, text := "\x7b\x7d", missing := true }

def source (disk : Disk) (tsconfig : Path) : Except AnalysisError Source :=
  match disk.canonical tsconfig with
  | .ok path => Source.read disk path
  | .error _ => .ok (.absent tsconfig)

def Source.dir (source : Source) : Path :=
  source.path.parent?.getD ⟨""⟩

/-- The root files of a project; a project file that does not exist has none. -/
def rootFilesOf (disk : Disk) (classifier : Classifier) (source : Source) (fields : Json.Fields) :
    Except AnalysisError (List Path) :=
  if source.missing then .ok [] else resolveRootFiles disk classifier source.dir fields

variable [Digest]

def ofSource (disk : Disk) (classifier : Classifier) (source : Source) :
    Except AnalysisError Manifest :=
  let shown := source.path.text
  match Json.Lenient.ofText? source.text with
  | none => .error (.programConstruction s!"Failed to parse {shown}: malformed text")
  | some (.obj fields) => do
    let compilerOptions := (fields.lookup "compilerOptions").getD (.obj [])
    let rootFiles ← rootFilesOf disk classifier source fields
    return {
      path := source.path
      rootFiles
      references := resolveReferences disk source.dir fields
      compilerOptions
      missing := source.missing
      fingerprint := fingerprintText (fingerprintSource source.text compilerOptions rootFiles) }
  | some _ => .error (.programConstruction s!"{shown} does not contain a JSON object")

def resolve (disk : Disk) (classifier : Classifier) (tsconfig : Path) :
    Except AnalysisError Manifest := do
  ofSource disk classifier (← source disk tsconfig)

end Manifest

end AnalysisServer
