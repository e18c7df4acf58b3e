import AnalysisServer.Discovery.Standard
import AnalysisServer.Rules

namespace AnalysisServer

structure SessionOptions where
  tsParserForJs : Bool := false
  lightweight : Bool := false
  debugMemory : Bool := false
  ruleBundles : List Path := []
deriving DecidableEq, Inhabited

structure Session (σ : Type) where
  options : SessionOptions
  /-- The state of the rule engine. -/
  engine : σ
  linter : Option Linter := none
  loadedBundles : List Path := []
  classifier : Classifier := .standard
  programs : Registry := {}
  stores : StoreSet StandardStore := .standard
  lastConfiguration : Option Configuration := none
  /-- The project files that the last discovery found. -/
  projectTsConfigs : List Path := []
  temporary : List Path := []

/-- A session and the disk it works on. -/
structure Workspace (σ : Type) where
  session : Session σ
  disk : Disk

/-- Something a session does that may fail; what it did before failing stays done. -/
abbrev Action (σ α : Type) := ExceptT AnalysisError (StateM (Workspace σ)) α

namespace Session

variable {σ : Type}

def fresh (engine : RuleEngine σ) (options : SessionOptions) : Session σ :=
  { options, engine := engine.initial }

def isLoaded (s : Session σ) (bundle : Path) : Bool :=
  s.loadedBundles.any bundle.same

end Session

namespace Action

variable {σ α : Type}

def session : Action σ (Session σ) :=
  return (← get).session

def disk : Action σ Disk :=
  return (← get).disk

def setSession (f : Session σ → Session σ) : Action σ Unit :=
  modify fun w ↦ { w with session := f w.session }

def programs (f : Registry → α × Registry) : Action σ α := do
  let w ← get
  let (a, programs) := f w.session.programs
  setSession fun s ↦ { s with programs }
  return a

def ofExcept : Except AnalysisError α → Action σ α
  | .ok a => return a
  | .error e => throw e

end Action

end AnalysisServer
