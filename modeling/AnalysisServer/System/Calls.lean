import AnalysisServer.Pool.Dispatch
import AnalysisServer.Pool.Watch
import AnalysisServer.System.Basic

namespace AnalysisServer.System

variable {σ : Type}

def endCall (s : System σ) (c : Nat) (x : Call) (stage : Stage) : System σ :=
  let s := (s.depart x).setCall c fun x ↦ { x with stage, deadline := x.deadline.stop.2 }
  { s with pool := x.tickets.foldl Pool.detach s.pool }

def stopped : AnalysisError :=
  .workerFailure "Server is shutting down"

def arrive (s : System σ) (c : Nat) (x : Call) : System σ :=
  match x.router with
  | none => s.setStage c .accepted
  | some r =>
    match s.routers[r]? with
    | none => s.setStage c .accepted
    | some router =>
      if router.accepting then
        let deadline : Deadline Unit := { delay := router.timeout }
        (s.setRouter r fun router ↦ { router with inFlight := router.inFlight + 1 }).setCall c
          fun x ↦ { x with stage := .accepted, deadline := deadline.start s.now () }
      else s.setStage c (.finished (.error stopped))

/-- Hears the next reply to a call; the outcome goes to what is to be done with it. -/
def listen (s : System σ) (c : Nat) (id : RequestId)
    (finish : Except AnalysisError Response → System σ → System σ) : Option (System σ) :=
  match s.pool.hear id with
  | none => none
  | some (.part p, pool) =>
    some ({ s with pool }.setCall c fun x ↦ { x with heard := x.heard ++ [p] })
  | some (.outcome outcome, pool) => some (finish outcome { s with pool })

/-- The first failure stays. -/
def note (failure : Option AnalysisError) : Except AnalysisError Response → Option AnalysisError
  | .error e => some (failure.getD e)
  | .ok _ => failure

def gathered : Option AnalysisError → Except AnalysisError Response
  | some e => .error e
  | none => .ok .ack

def spread (setup : PoolSetup σ) (s : System σ) (c : Nat) (x : Call) (seat : Nat)
    (id : Option RequestId) (sent : List (Except AnalysisError RequestId)) : System σ :=
  if seat < s.pool.seats.length then
    match id with
    | none =>
      match s.pool.giveNumber with
      | (.ok id, pool) => { s with pool }.setStage c (.spreading seat (some id) sent)
      | (.error e, pool) => { s with pool }.setStage c (.spreading (seat + 1) none (sent ++ [Except.error e]))
    | some id =>
      match s.pool.enqueue setup seat id x.request false with
      | (.ok _, pool) => { s with pool }.setStage c (.spreading (seat + 1) none (sent ++ [Except.ok id]))
      | (.error e, pool) => { s with pool }.setStage c (.spreading (seat + 1) none (sent ++ [Except.error e]))
  else s.setStage c (.gathering sent none)

def gather (s : System σ) (c : Nat) (x : Call) (left : List (Except AnalysisError RequestId))
    (failure : Option AnalysisError) : Option (System σ) :=
  match left with
  | [] => some (s.endCall c x (.finished (gathered failure)))
  | .error e :: rest => some (s.setStage c (.gathering rest (note failure (.error e))))
  | .ok id :: rest =>
    match s.pool.hear id with
    | none => none
    | some (.part _, pool) => some { s with pool }
    | some (.outcome outcome, pool) =>
      some ({ s with pool }.setStage c (.gathering rest (note failure outcome)))

def callStep [Digest] (setup : PoolSetup σ) (s : System σ) (c : Nat) : Option (System σ) := do
  let x ← s.calls[c]?
  match x.stage with
  | .arrived => some (s.arrive c x)
  | .accepted =>
    if x.request.isBroadcast then
      some ({ s with pool := s.pool.remember x.request }.setStage c (.spreading 0 none []))
    else
      let (seat, pool) := s.pool.choose setup x.request
      some ({ s with pool }.setStage c (.chosen seat))
  | .chosen seat =>
    match s.pool.giveNumber with
    | (.ok id, pool) => some ({ s with pool }.setStage c (.numbered seat id))
    | (.error e, pool) => some ({ s with pool }.endCall c x (.finished (.error e)))
  | .numbered seat id =>
    match s.pool.enqueue setup seat id x.request x.streaming with
    | (.ok _, pool) => some ({ s with pool }.setStage c (.waiting id))
    | (.error e, pool) => some ({ s with pool }.endCall c x (.finished (.error e)))
  | .waiting id => s.listen c id fun outcome s ↦ s.endCall c x (.finished outcome)
  | .spreading seat id sent => some (s.spread setup c x seat id sent)
  | .gathering left failure => s.gather c x left failure
  | .finished _ | .abandoned => none

def timeUp (s : System σ) (c : Nat) : Option (System σ) := do
  let x ← s.calls[c]?
  if x.isWaiting then
    match x.deadline.wake 0 with
    | (some _, deadline) =>
      some (s.endCall c { x with deadline } (.finished (.error (.timeout x.deadline.delay))))
    | (none, _) => none
  else none

def abandon (s : System σ) (c : Nat) : Option (System σ) := do
  let x ← s.calls[c]?
  if x.isWaiting || (x.stage matches .arrived) then some (s.endCall c x .abandoned) else none

end AnalysisServer.System
