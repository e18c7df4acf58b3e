import AnalysisServer.Deadline
import AnalysisServer.Pool.Basic

namespace AnalysisServer

structure Router where
  timeout : Nat
  accepting : Bool := true
  inFlight : Nat := 0

/-- How far a call has come. A call for one worker has a seat chosen, is given a number, and waits. A
call for all workers does so seat by seat before it waits for them one by one. -/
inductive Stage where
  | arrived
  | accepted
  | chosen (seat : Nat)
  | numbered (seat : Nat) (id : RequestId)
  | waiting (id : RequestId)
  | spreading (seat : Nat) (id : Option RequestId) (sent : List (Except AnalysisError RequestId))
  | gathering (left : List (Except AnalysisError RequestId)) (failure : Option AnalysisError)
  | finished (outcome : Except AnalysisError Response)
  | abandoned

structure Call where
  request : Request
  streaming : Bool := false
  /-- The router that the call goes through; without one it goes straight to the pool. -/
  router : Option Nat := none
  stage : Stage := .arrived
  deadline : Deadline Unit := { delay := 0 }
  /-- What the caller has heard before the outcome. -/
  heard : List Partial := []

namespace Call

def outcome? (c : Call) : Option (Except AnalysisError Response) :=
  match c.stage with
  | .finished outcome => some outcome
  | _ => none

def isWaiting (c : Call) : Bool :=
  match c.stage with
  | .waiting _ | .gathering _ _ => true
  | _ => false

def isOpen (c : Call) : Bool :=
  match c.stage with
  | .finished _ | .abandoned => false
  | _ => true

def tickets (c : Call) : List RequestId :=
  match c.stage with
  | .waiting id => [id]
  | .spreading _ _ sent => sent.filterMap Except.toOption
  | .gathering left _ => left.filterMap Except.toOption
  | _ => []

end Call

/-- How far a router has been shut down. -/
inductive ShutdownStage where
  | begun
  /-- Waits for the requests in flight, since a time. -/
  | draining (since : Nat)
  | leaving
  | closing
  | done

structure Shutdown where
  router : Nat
  grace : Nat
  stage : ShutdownStage := .begun

def Shutdown.isDone (x : Shutdown) : Bool :=
  match x.stage with
  | .done => true
  | _ => false

structure System (σ : Type) where
  pool : Pool σ
  routers : List Router := []
  calls : List Call := []
  shutdowns : List Shutdown := []
  now : Nat := 0

structure SystemSetup (σ : Type) extends PoolSetup σ where
  closeGrace : Nat

/-- What may happen next. -/
inductive Event where
  | work (w : WorkerId)
  | monitor (w : WorkerId)
  | replay (w : WorkerId)
  | drain (id : RequestId)
  | call (c : Nat)
  /-- The time of a call is over. -/
  | timeUp (c : Nat)
  /-- A caller loses interest. -/
  | abandon (c : Nat)
  | beginClose
  | close
  | graceOver
  | shutdown (s : Nat)
  /-- A router no longer waits for requests in flight. -/
  | drainOver (s : Nat)
  /-- Time goes by. -/
  | pass (ms : Nat)

namespace System

variable {σ : Type}

def setRouter (s : System σ) (r : Nat) (f : Router → Router) : System σ :=
  { s with routers := s.routers.modify r f }

def setCall (s : System σ) (c : Nat) (f : Call → Call) : System σ :=
  { s with calls := s.calls.modify c f }

def setStage (s : System σ) (c : Nat) (stage : Stage) : System σ :=
  s.setCall c fun x ↦ { x with stage }

def depart (s : System σ) (x : Call) : System σ :=
  match x.router, x.stage with
  | none, _ | _, .arrived => s
  | some r, _ => s.setRouter r fun router ↦ { router with inFlight := router.inFlight - 1 }

end System

end AnalysisServer
