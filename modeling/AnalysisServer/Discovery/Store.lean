import AnalysisServer.Discovery.Walk
import AnalysisServer.Request

/-!
Stores and the discovery that feeds them. A discovery asks every store whether it is ready; those
that are not share one walk over the base directory.
-/

namespace AnalysisServer

structure DiscoveryContext where
  baseDir : Path
  config : Configuration
  files : Option ProjectFiles := none

/-- A collector of type `S` that acts on surroundings of type `E`. -/
class FileStore (E S : Type) where
  name : S → String
  /-- Whether the store is ready; it may make itself so from the files in the context. -/
  isInitialized : DiscoveryContext → S → E → Bool × S × E
  setup : DiscoveryContext → S → E → Except AnalysisError Unit × S × E
  processFile : DiscoveryContext → Path → S → E → S × E
  supportsDirectories : S → Bool
  processDirectory : DiscoveryContext → Path → S → E → S × E
  postProcess : DiscoveryContext → S → E → Except AnalysisError Unit × S × E

structure DiscoveryOutcome where
  refreshed : List String := []
  walk : Option Walk.Summary := none
deriving DecidableEq

/-- The stores in the order of registration, and how many walks there were. -/
structure StoreSet (S : Type) where
  stores : List S
  walks : Nat := 0

namespace StoreSet

variable {E S : Type}

abbrev Marked (S : Type) := S × Bool

def eachPending (act : S → E → S × E) : List (Marked S) → E → List (Marked S) × E
  | [], e => ([], e)
  | (s, false) :: rest, e =>
    let (rest, e) := eachPending act rest e
    ((s, false) :: rest, e)
  | (s, true) :: rest, e =>
    let (s, e) := act s e
    let (rest, e) := eachPending act rest e
    ((s, true) :: rest, e)

def tryPending (act : S → E → Except AnalysisError Unit × S × E) :
    List (Marked S) → E → Except AnalysisError Unit × List (Marked S) × E
  | [], e => (.ok (), [], e)
  | (s, false) :: rest, e =>
    let (r, rest, e) := tryPending act rest e
    (r, (s, false) :: rest, e)
  | (s, true) :: rest, e =>
    match act s e with
    | (.error err, s, e) => (.error err, (s, true) :: rest, e)
    | (.ok _, s, e) =>
      let (r, rest, e) := tryPending act rest e
      (r, (s, true) :: rest, e)

variable [FileStore E S]

def mark (ctx : DiscoveryContext) : List S → E → List (Marked S) × E
  | [], e => ([], e)
  | s :: rest, e =>
    let (ready, s, e) := FileStore.isInitialized ctx s e
    let (rest, e) := mark ctx rest e
    ((s, !ready) :: rest, e)

def feed (ctx : DiscoveryContext) (event : Walk.Event) (s : S) (e : E) : S × E :=
  match event with
  | .file path => FileStore.processFile ctx path s e
  | .directory path =>
    if FileStore.supportsDirectories E s then FileStore.processDirectory ctx path s e else (s, e)

/-- Tells each entry to all stores that wait, one after the other. -/
def visitor [HasDisk E] (ctx : DiscoveryContext) : Walk.Visitor (List (Marked S) × E) where
  disk x := HasDisk.disk x.2
  visit event x := eachPending (feed ctx event) x.1 x.2

def missingBase (ctx : DiscoveryContext) : AnalysisError :=
  .validation ("Base directory does not exist: " ++ ctx.baseDir.text)

def withStores (set : StoreSet S) (stores : List (Marked S)) : StoreSet S :=
  { set with stores := stores.map (·.1) }

def discover [HasDisk E] (ctx : DiscoveryContext) (set : StoreSet S) (e : E) :
    Except AnalysisError DiscoveryOutcome × StoreSet S × E :=
  let (stores, e) := mark ctx set.stores e
  if stores.all fun s ↦ !s.2 then (.ok {}, set.withStores stores, e)
  else if !(HasDisk.disk e).isDir ctx.baseDir then
    (.error (missingBase ctx), set.withStores stores, e)
  else
    match tryPending (FileStore.setup ctx) stores e with
    | (.error err, stores, e) => (.error err, set.withStores stores, e)
    | (.ok _, stores, e) =>
      let (summary, stores, e) := (visitor ctx).walk ctx.baseDir ctx.config.exclusionPatterns (stores, e)
      let set := { set with walks := set.walks + 1 }
      match tryPending (FileStore.postProcess ctx) stores e with
      | (.error err, stores, e) => (.error err, set.withStores stores, e)
      | (.ok _, stores, e) =>
        let refreshed := (stores.filter (·.2)).map fun s ↦ FileStore.name E s.1
        (.ok { refreshed, walk := some summary }, set.withStores stores, e)

def clear (ctx : DiscoveryContext) (set : StoreSet S) (e : E) :
    Except AnalysisError Unit × StoreSet S × E :=
  let (r, stores, e) := tryPending (FileStore.setup ctx) (set.stores.map fun s ↦ (s, true)) e
  (r, set.withStores stores, e)

end StoreSet

end AnalysisServer
