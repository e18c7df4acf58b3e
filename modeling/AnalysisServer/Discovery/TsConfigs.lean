import AnalysisServer.Discovery.Store

namespace AnalysisServer

inductive TsConfigOrigin where
  | property
  | lookup
  | fallback
deriving DecidableEq

def TsConfigOrigin.word : TsConfigOrigin → String
  | property => "property"
  | lookup => "lookup"
  | fallback => "fallback"

def tsConfigObject (files patterns : Option (List String)) : Json :=
  .obj ([("compilerOptions", .obj [("allowJs", .bool true), ("noImplicitAny", .bool true)])] ++
    Json.optionalField "files" Json.strings files ++
    Json.optionalField "include" Json.strings patterns)

def writeTsConfig (disk : Disk) (tsconfig : Json) : Except AnalysisError (Path × Disk) :=
  match disk.writeTemp tsconfig.pretty.toUTF8 with
  | .ok r => .ok r
  | .error e => .error e.toError

structure TsConfigFinds where
  named : List Path := []
  usual : List Path := []
  scripts : List Path := []

structure TsConfigStore where
  origin : Option TsConfigOrigin := none
  paths : List Path := []
  key : Option String := none
  finds : TsConfigFinds := {}
  /-- The temporary project file, which goes when the store is set up anew. -/
  fallback : Option Path := none

namespace TsConfigStore

def fileName : String :=
  "tsconfig.json"

def tsconfigs (s : TsConfigStore) : Except AnalysisError (List Path) :=
  if s.origin.isNone then
    .error (.validation
      "TsConfig store has not been initialized. Run file discovery before reading it.")
  else .ok s.paths

def keyText (ctx : DiscoveryContext) : String :=
  "\x00".intercalate (ctx.baseDir.text ::
    if ctx.config.tsConfigPaths.isEmpty then [] else [",".intercalate ctx.config.tsConfigPaths])

def isProjectFileName (name : String) : Bool :=
  "tsconfig".toList.isPrefixOf name.toList && ".json".toList.isSuffixOf name.toList

/-- A project file changed, or a script came or went that a fallback would list. -/
def isDirty (ctx : DiscoveryContext) (s : TsConfigStore) : Bool :=
  ctx.config.fsEvents.any fun event ↦
    event.path.fileName?.any isProjectFileName ||
      (s.origin == some .fallback && event.kind ≠ .modified &&
        ctx.config.classifier.isScript event.path)

/-- The patterns that a configured path stands for; a bare name is looked for everywhere. -/
def patternsOf (pattern : String) : List String :=
  if (Path.mk pattern).isAbsolute then []
  else if pattern.toList.contains '/' then [pattern]
  else [pattern, "**/" ++ pattern]

def providedGlobs (ctx : DiscoveryContext) : List Glob :=
  (Glob.set (ctx.config.tsConfigPaths.flatMap patternsOf)).map Glob.anyCase

def componentText : Component → String
  | .root => "/"
  | .current => "."
  | .parent => ".."
  | .name s => s

/-- The configuration names this file, by its path or by a pattern below the base directory. -/
def isProvided (ctx : DiscoveryContext) (path : Path) : Bool :=
  (ctx.config.tsConfigPaths.any fun p ↦ (ctx.baseDir.join ⟨p⟩).same path) ||
    (let relative :=
      match path.relativeTo? ctx.baseDir with
      | some components => "/".intercalate (components.map componentText)
      | none => path.text
    Glob.anyMatch (providedGlobs ctx) relative)

def processFile (ctx : DiscoveryContext) (path : Path) (s : TsConfigStore) : TsConfigStore :=
  let f := s.finds
  let f := if isProvided ctx path then { f with named := path :: f.named } else f
  let f := if path.fileName? == some fileName then { f with usual := path :: f.usual } else f
  let f := if ctx.config.classifier.isScript path then { f with scripts := path :: f.scripts } else f
  { s with finds := f }

def setup (disk : Disk) (s : TsConfigStore) : TsConfigStore × Disk :=
  ({}, match s.fallback with
    | some p => disk.removeFile p
    | none => disk)

/-- The content of the temporary project file; a big project in an editor gets none. -/
def fallbackObject? (ctx : DiscoveryContext) (s : TsConfigStore) : Option Json :=
  if ctx.config.sonarlint then
    if s.finds.scripts.length ≥ ctx.config.maxFilesForTypeChecking.toNat then none
    else some (tsConfigObject none (some [((ctx.baseDir.joinName "**").joinName "*").text]))
  else some (tsConfigObject (some (s.finds.scripts.reverse.map Path.text)) none)

def writeFallback (ctx : DiscoveryContext) (s : TsConfigStore) (disk : Disk) :
    Except AnalysisError (TsConfigStore × Disk) :=
  match fallbackObject? ctx s with
  | none => .ok ({ s with origin := some .fallback, paths := [] }, disk)
  | some tsconfig =>
    match writeTsConfig disk tsconfig with
    | .error e => .error e
    | .ok (path, disk) =>
      .ok ({ s with origin := some .fallback, paths := [path], fallback := some path }, disk)

variable [Digest]

def keyFor (ctx : DiscoveryContext) : String :=
  fingerprintText (keyText ctx)

def isInitialized (ctx : DiscoveryContext) (s : TsConfigStore) : Bool :=
  !s.isDirty ctx && s.origin.isSome && s.key == some (keyFor ctx)

def postProcess (ctx : DiscoveryContext) (s : TsConfigStore) (disk : Disk) :
    Except AnalysisError Unit × TsConfigStore × Disk :=
  if !ctx.config.tsConfigPaths.isEmpty && !s.finds.named.isEmpty then
    (.ok (), { s with
      origin := some .property, paths := s.finds.named.reverse, key := some (keyFor ctx) }, disk)
  else if !s.finds.usual.isEmpty then
    (.ok (), { s with
      origin := some .lookup, paths := s.finds.usual.reverse, key := some (keyFor ctx) }, disk)
  else
    match writeFallback ctx s disk with
    | .error e => (.error e, s, disk)
    | .ok (s, disk) => (.ok (), { s with key := some (keyFor ctx) }, disk)

end TsConfigStore

end AnalysisServer
