import AnalysisServer.Discovery.Package
import AnalysisServer.Discovery.Store

namespace AnalysisServer

/-- Manifests by the directory they are in. -/
structure PackageStore where
  packages : PathMap Package := []
  baseDir : Option Path := none
  key : Option String := none

namespace PackageStore

def searched (s : PackageStore) (file : Path) : List Path :=
  let above := file.ancestors
  match above.findIdx? fun dir ↦ s.baseDir.any dir.same with
  | some i => above.take (i + 1)
  | none => above

def dependenciesFor (s : PackageStore) (file : Path) : List String :=
  ascendingNames ((s.searched file).flatMap fun dir ↦
    match PathMap.get? dir s.packages with
    | some p => p.dependencies
    | none => [])

def nearest? (s : PackageStore) (file : Path) : Option Package :=
  file.ancestors.findSome? fun dir ↦ PathMap.get? dir s.packages

def changed (ctx : DiscoveryContext) : Bool :=
  ctx.config.fsEvents.any fun event ↦ event.path.fileName? == some Package.fileName

def setup (ctx : DiscoveryContext) (_ : PackageStore) : PackageStore :=
  { baseDir := some ctx.baseDir }

def processFile (disk : Disk) (path : Path) (s : PackageStore) : PackageStore :=
  if path.fileName? == some Package.fileName then
    match Package.read disk path, path.parent? with
    | .ok p, some dir => { s with packages := PathMap.insert dir p s.packages }
    | _, _ => s
  else s

variable [Digest]

def isInitialized (ctx : DiscoveryContext) (s : PackageStore) : Bool :=
  !changed ctx && s.key == some (ctx.config.discoveryKey ctx.baseDir)

def postProcess (ctx : DiscoveryContext) (s : PackageStore) : PackageStore :=
  { s with key := some (ctx.config.discoveryKey ctx.baseDir) }

end PackageStore

end AnalysisServer
