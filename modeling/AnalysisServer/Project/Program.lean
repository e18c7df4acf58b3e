import AnalysisServer.Cache.Basic
import AnalysisServer.Project.Manifest

namespace AnalysisServer

structure Program where
  id : String
  manifest : Manifest
  hashes : PathMap String
deriving Inhabited

namespace Program

variable [Digest]

def hashFile (disk : Disk) (file : Path) : Except AnalysisError (Path × String) :=
  match disk.read file with
  | .ok bytes => .ok (file, fingerprint bytes)
  | .error e =>
    let shown := file.text
    let reason := e.message
    .error (.programConstruction s!"Cannot read {shown}: {reason}")

def build (disk : Disk) (manifest : Manifest) : Except AnalysisError Program := do
  let hashes ← manifest.rootFiles.mapM (hashFile disk)
  return { id := programId manifest.path, manifest, hashes := PathMap.ofList hashes }

omit [Digest] in
def contains (p : Program) (file : Path) : Bool :=
  PathMap.contains file p.hashes

omit [Digest] in
def files (p : Program) : List Path :=
  PathMap.keys p.hashes

end Program

/-- Where a project file is: its canonical path, or, if it does not exist, its name in the canonical
directory. -/
def programKey (disk : Disk) (path : Path) : Path :=
  match disk.canonical? path with
  | some canonical => canonical
  | none =>
    let path := path.normalize
    match path.parent?.bind disk.canonical?, path.fileName? with
    | some dir, some name => dir.joinName name
    | _, _ => path

structure ProgramHandle where
  id : String
  program : Program
  created : Bool
deriving Inhabited

structure Registry where
  cache : Cache Path Program := {}
  ids : List (String × Path) := []

namespace Registry

def setId (r : Registry) (id : String) (key : Path) : Registry :=
  { r with ids := r.ids.filter (fun e ↦ e.1 ≠ id) ++ [(id, key)] }

def dropIds (r : Registry) (key : Path) : Registry :=
  { r with ids := r.ids.filter fun e ↦ e.2 ≠ key }

def invalidateKey (r : Registry) (key : Path) : Bool × Registry :=
  let (removed, cache) := r.cache.invalidate key
  (removed, { r.dropIds key with cache })

def getById (r : Registry) (id : String) : Option Program × Registry :=
  match r.ids.lookup id with
  | none => (none, r)
  | some key =>
    let (p, cache) := r.cache.get key
    (p, { r with cache })

def findForFile (r : Registry) (file : Path) : Option Program × Registry :=
  let (found, cache) := r.cache.find fun _ p ↦ p.contains file
  (found.map (·.2), { r with cache })

def delete (r : Registry) (id : String) : Bool × Registry :=
  match r.ids.lookup id with
  | none => (false, r)
  | some key => (true, (r.invalidateKey key).2)

def invalidate (r : Registry) (disk : Disk) (tsconfig : Path) : Bool × Registry :=
  r.invalidateKey (programKey disk tsconfig)

def keysAround (r : Registry) (path : Path) : List Path :=
  Path.sorted ((r.ids.map (·.2)).filter fun key ↦ key.parent?.any path.startsWith)

/-- Drops every program in whose directory a path lies, and counts them. -/
def invalidateContaining (r : Registry) (disk : Disk) (path : Path) : Nat × Registry :=
  (r.keysAround (programKey disk path)).foldl
    (fun (n, r) key ↦
      let (removed, r) := r.invalidate disk key
      (if removed then n + 1 else n, r))
    (0, r)

def clear (r : Registry) : Registry :=
  { r with cache := r.cache.clear, ids := [] }

def size (r : Registry) : Nat :=
  r.cache.size

variable [Digest]

def getOrCreate (r : Registry) (disk : Disk) (classifier : Classifier) (tsconfig : Path) :
    Except AnalysisError ProgramHandle × Registry :=
  let key := programKey disk tsconfig
  let id := programId tsconfig
  let enter (r : Registry) (program : Program) (created : Bool) :
      Except AnalysisError ProgramHandle × Registry :=
    (.ok ⟨id, program, created⟩, (r.setId id key).setId program.id key)
  let (cached, cache) := r.cache.get key
  let r := { r with cache }
  match cached with
  | some program => enter r program false
  | none =>
    match Manifest.resolve disk classifier tsconfig with
    | .error e => (.error e, r)
    | .ok manifest =>
      let (built, cache) :=
        r.cache.getOrBuild key (some manifest.fingerprint) fun _ ↦ Program.build disk manifest
      let r := { r with cache }
      match built.outcome with
      | .error e => (.error e, r)
      | .ok program => enter r program built.ran

end Registry

end AnalysisServer
