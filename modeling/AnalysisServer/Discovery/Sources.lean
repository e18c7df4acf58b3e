import AnalysisServer.Discovery.Records
import AnalysisServer.Discovery.Store

namespace AnalysisServer

structure SourceStore where
  files : FilesCache := {}
  staged : List FileRecord := []
  tooBig : List Path := []
  key : Option String := none

namespace SourceStore

def skipped (s : SourceStore) : List Path :=
  s.tooBig.reverse

def inputRecord? (classifier : Classifier) (path : Path) (f : ProjectFile) : Option FileRecord :=
  match f.language.or (classifier.classify path f.content) with
  | some language => some ⟨path, language, f.fileType, f.content⟩
  | none => none

/-- Takes the listed files; they are of no use to a later walk. -/
def loadInputs (s : SourceStore) (ctx : DiscoveryContext) (files : ProjectFiles) : SourceStore :=
  let records := files.filterMap fun e ↦ inputRecord? ctx.config.classifier e.1 e.2
  { s with files := s.files.setFiles ctx.baseDir records, tooBig := [], key := none }

def changed (ctx : DiscoveryContext) : Bool :=
  ctx.config.fsEvents.any fun event ↦
    event.kind ≠ .modified && (ctx.config.classifier.classify event.path none).isSome

def setup (_ : SourceStore) : SourceStore :=
  {}

def processFile (ctx : DiscoveryContext) (disk : Disk) (path : Path) (s : SourceStore) :
    SourceStore :=
  match ctx.config.classifier.classify path none with
  | none => s
  | some language =>
    match disk.node path with
    | .ok (.file bytes) =>
      if bytes.size > ctx.config.maxFileBytes then { s with tooBig := path :: s.tooBig }
      else
        let fileType := ctx.config.fileTypeOf path ctx.baseDir
        { s with staged := ⟨path, language, fileType, none⟩ :: s.staged }
    | _ => s

variable [Digest]

def isInitialized (ctx : DiscoveryContext) (s : SourceStore) : Bool × SourceStore :=
  match ctx.files with
  | some files => (true, s.loadInputs ctx files)
  | none =>
    (!changed ctx && s.files.isInitialized && s.key == some (ctx.config.discoveryKey ctx.baseDir), s)

def postProcess (ctx : DiscoveryContext) (s : SourceStore) : SourceStore :=
  { s with
    files := s.files.setFiles ctx.baseDir s.staged.reverse
    staged := []
    key := some (ctx.config.discoveryKey ctx.baseDir) }

end SourceStore

end AnalysisServer
