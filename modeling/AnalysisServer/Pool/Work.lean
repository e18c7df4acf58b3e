import AnalysisServer.Pool.Basic

/-!
What workers do. A worker takes one message after the other, and a request step by step.
-/

namespace AnalysisServer.Pool

variable {σ : Type}

def leave (p : Pool σ) (w : WorkerId) (notes : List Note) : Pool σ :=
  p.setWorker w fun x ↦ { x with phase := .leaving, work := none, notes := x.notes ++ notes }

def putWorkspace (p : Pool σ) (w : WorkerId) (space : Workspace σ) : Pool σ :=
  { p.setWorker w fun x ↦ { x with session := space.session } with disk := space.disk }

def proceed (p : Pool σ) (w : WorkerId) (id : RequestId) : Progress → Pool σ
  | .more task => p.setWorker w fun x ↦ { x with work := some ⟨id, task⟩ }
  | .done outcome =>
    ((p.write id (.final outcome)).complete id).setWorker w fun x ↦ { x with work := none }

def workOn (engine : RuleEngine σ) (p : Pool σ) (w : WorkerId) (x : Worker σ) (job : Work) :
    Option (Pool σ) :=
  match Session.step engine job.task ⟨x.session, p.disk⟩ with
  | .error .waiting => none
  | .error .crashed => some ((p.complete job.id).leave w [])
  | .error (.failed e) => some (p.proceed w job.id (.done (.error e)))
  | .ok (advance, space) =>
    let p := p.putWorkspace w space
    let p := match advance.delivered with
      | some part => p.write job.id (.part part)
      | none => p
    some (p.proceed w job.id advance.progress)

def dropInbox (p : Pool σ) (w : WorkerId) (x : Worker σ) : Pool σ :=
  (x.inbox.filterMap Message.id?).foldl complete (p.setWorker w fun x ↦ { x with inbox := [] })

variable [Digest]

def takeMessage (engine : RuleEngine σ) (p : Pool σ) (w : WorkerId) (x : Worker σ) :
    Option (Pool σ) :=
  match x.inbox with
  | [] => if x.connected then none else some (p.leave w [.exited])
  | message :: rest =>
    let p := p.setWorker w fun x ↦ { x with inbox := rest }
    match message with
    | .analyze id request streaming =>
      let (progress, space) := Session.begin engine request streaming ⟨x.session, p.disk⟩
      some ((p.putWorkspace w space).proceed w id progress)
    | .close => some ((p.putWorkspace w (Session.close ⟨x.session, p.disk⟩)).leave w [.exited])

def workerStep (engine : RuleEngine σ) (p : Pool σ) (w : WorkerId) : Option (Pool σ) := do
  let x ← p.workers[w]?
  match x.phase with
  | .starting =>
    some (p.setWorker w fun x ↦ { x with phase := .serving, notes := x.notes ++ [.online] })
  | .serving =>
    match x.work with
    | some job => p.workOn engine w x job
    | none => p.takeMessage engine w x
  | .leaving => some (p.setWorker w fun x ↦ { x with phase := .silent })
  | .silent => some ((p.dropInbox w x).setWorker w fun x ↦ { x with phase := .deaf })
  | .deaf =>
    let disk := Session.drop ⟨x.session, p.disk⟩
    some { p.setWorker w fun x ↦ { x with phase := .gone } with disk }
  | .gone => none

end AnalysisServer.Pool
