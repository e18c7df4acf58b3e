import AnalysisServer.Pool.Basic

namespace AnalysisServer

namespace Seat

def online (s : Seat) : Seat :=
  if s.state = .starting then { s with state := if s.inFlight > 0 then .busy else .online } else s

def exited (s : Seat) : Seat :=
  { s with state := .exited, inFlight := 0 }

def crashed (s : Seat) : Seat :=
  if s.state.isFinal then s else { s with state := .errored, inFlight := 0 }

def fail (s : Seat) : Seat :=
  if s.state.isFinal ∨ s.state = .closing then s else { s with state := .errored }

end Seat

namespace Pool

variable {σ : Type}

def setMonitor (p : Pool σ) (w : WorkerId) (m : Monitor) : Pool σ :=
  p.setWorker w fun x ↦ { x with monitor := m }

def isCurrent (p : Pool σ) (x : Worker σ) : Bool :=
  (p.seats[x.seat]?.map Seat.generation) = some x.generation

/-- The monitor of a worker reads its next note, or finds that there will be none. -/
def monitorStep (p : Pool σ) (w : WorkerId) : Option (Pool σ) := do
  let x ← p.workers[w]?
  match x.monitor, x.notes with
  | .through, _ => none
  | .watching exited, [] =>
    if x.phase.speaks then none
    else
      let p := if exited then p else p.update x.seat x.generation Seat.crashed
      some (p.setMonitor w .through)
  | .watching _, note :: rest =>
    if p.isCurrent x then
      let p := p.setWorker w fun x ↦ { x with notes := rest }
      match note with
      | .online => some (p.update x.seat x.generation Seat.online)
      | .exited => some ((p.update x.seat x.generation Seat.exited).setMonitor w (.watching true))
    else some (p.setMonitor w .through)

def forgetReplay (p : Pool σ) (w : WorkerId) (id : RequestId) : Pool σ :=
  (p.hold id .released).setWorker w fun x ↦ { x with replay := none }

def replayStep (p : Pool σ) (w : WorkerId) : Option (Pool σ) := do
  let x ← p.workers[w]?
  let id ← x.replay
  let t ← p.ticket? id
  match t.next? with
  | some (.part _) => some (p.markRead id)
  | some (.final (.ok _)) => some ((p.markRead id).forgetReplay w id)
  | some (.final (.error _)) =>
    some (((p.markRead id).forgetReplay w id).update x.seat x.generation Seat.fail)
  | none => if t.complete then some (p.forgetReplay w id) else none

def drainStep (p : Pool σ) (id : RequestId) : Option (Pool σ) := do
  let t ← p.ticket? id
  if t.holder = .drain then
    match t.next? with
    | some (.part _) => some (p.markRead id)
    | some (.final _) => some ((p.markRead id).release t)
    | none => if t.complete then some (p.release t) else none
  else none

def detach (p : Pool σ) (id : RequestId) : Pool σ :=
  p.setTicket id fun t ↦ if t.holder = .caller then { t with holder := .drain } else t

def lost (t : Ticket) : AnalysisError :=
  .workerFailure
    ("Worker " ++ toString t.seat ++ " exited before replying to request " ++ toString t.id)

/-- What a caller hears: a part of the result, or the outcome. -/
inductive Heard where
  | part (p : Partial)
  | outcome (o : Except AnalysisError Response)

def hear (p : Pool σ) (id : RequestId) : Option (Heard × Pool σ) := do
  let t ← p.ticket? id
  match t.next? with
  | some (.part part) => some (.part part, p.markRead id)
  | some (.final outcome) => some (.outcome outcome, (p.markRead id).release t)
  | none =>
    if t.complete then
      some (.outcome (.error (lost t)), (p.update t.seat t.generation Seat.fail).release t)
    else none

end Pool

end AnalysisServer
