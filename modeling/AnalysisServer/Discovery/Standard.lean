import AnalysisServer.Discovery.Packages
import AnalysisServer.Discovery.Sources
import AnalysisServer.Discovery.TsConfigs

namespace AnalysisServer

inductive StandardStore where
  | sources (s : SourceStore)
  | packages (s : PackageStore)
  | tsconfigs (s : TsConfigStore)

namespace StandardStore

def name : StandardStore → String
  | sources _ => "source-files"
  | packages _ => "package-json"
  | tsconfigs _ => "tsconfig"

variable {E : Type} [HasDisk E]

def setup (ctx : DiscoveryContext) : StandardStore → E → Except AnalysisError Unit × StandardStore × E
  | sources s, e => (.ok (), sources s.setup, e)
  | packages s, e => (.ok (), packages (s.setup ctx), e)
  | tsconfigs s, e =>
    let (s, disk) := s.setup (HasDisk.disk e)
    (.ok (), tsconfigs s, HasDisk.setDisk disk e)

def processFile (ctx : DiscoveryContext) (path : Path) : StandardStore → E → StandardStore × E
  | sources s, e => (sources (s.processFile ctx (HasDisk.disk e) path), e)
  | packages s, e => (packages (s.processFile (HasDisk.disk e) path), e)
  | tsconfigs s, e => (tsconfigs (s.processFile ctx path), e)

variable [Digest]

def isInitialized (ctx : DiscoveryContext) : StandardStore → E → Bool × StandardStore × E
  | sources s, e =>
    let (ready, s) := s.isInitialized ctx
    (ready, sources s, e)
  | packages s, e => (s.isInitialized ctx, packages s, e)
  | tsconfigs s, e => (s.isInitialized ctx, tsconfigs s, e)

def postProcess (ctx : DiscoveryContext) :
    StandardStore → E → Except AnalysisError Unit × StandardStore × E
  | sources s, e => (.ok (), sources (s.postProcess ctx), e)
  | packages s, e => (.ok (), packages (s.postProcess ctx), e)
  | tsconfigs s, e =>
    let (r, s, disk) := s.postProcess ctx (HasDisk.disk e)
    (r, tsconfigs s, HasDisk.setDisk disk e)

instance : FileStore E StandardStore where
  name := name
  isInitialized := isInitialized
  setup := setup
  processFile := processFile
  supportsDirectories := fun _ ↦ false
  processDirectory := fun _ _ s e ↦ (s, e)
  postProcess := postProcess

end StandardStore

namespace StoreSet

def standard : StoreSet StandardStore :=
  { stores := [.sources {}, .packages {}, .tsconfigs {}] }

def sources? (set : StoreSet StandardStore) : Option SourceStore :=
  set.stores.findSome? fun
    | .sources s => some s
    | _ => none

def packages? (set : StoreSet StandardStore) : Option PackageStore :=
  set.stores.findSome? fun
    | .packages s => some s
    | _ => none

def tsconfigs? (set : StoreSet StandardStore) : Option TsConfigStore :=
  set.stores.findSome? fun
    | .tsconfigs s => some s
    | _ => none

end StoreSet

end AnalysisServer
