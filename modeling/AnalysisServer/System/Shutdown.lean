import AnalysisServer.Pool.Close
import AnalysisServer.System.Basic

/-!
Shutting a router down. It takes no more requests, waits for those in flight, but not for longer than
a time of grace, and then closes the pool.
-/

namespace AnalysisServer.System

variable {σ : Type}

def setShutdown (s : System σ) (i : Nat) (stage : ShutdownStage) : System σ :=
  { s with shutdowns := s.shutdowns.modify i fun x ↦ { x with stage } }

/-- The next step of shutting a router down, unless something has to be waited for. -/
def shutdownStep (s : System σ) (i : Nat) : Option (System σ) := do
  let x ← s.shutdowns[i]?
  let router ← s.routers[x.router]?
  match x.stage with
  | .begun =>
    if router.accepting then
      some ((s.setRouter x.router fun r ↦ { r with accepting := false }).setShutdown i (.draining s.now))
    else some (s.setShutdown i .done)
  | .draining _ => if router.inFlight = 0 then some (s.setShutdown i .leaving) else none
  | .leaving =>
    match s.pool.beginClose with
    | some pool => some ({ s with pool }.setShutdown i .closing)
    | none => some (s.setShutdown i .done)
  | .closing =>
    match s.pool.closing with
    | .done => some (s.setShutdown i .done)
    | _ => none
  | .done => none

def drainOver (s : System σ) (i : Nat) : Option (System σ) := do
  let x ← s.shutdowns[i]?
  match x.stage with
  | .draining _ => some (s.setShutdown i .leaving)
  | _ => none

end AnalysisServer.System
