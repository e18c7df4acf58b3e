import AnalysisServer.Pool.Basic

namespace AnalysisServer.Pool

variable {σ : Type}

def send (p : Pool σ) (w : WorkerId) (m : Message) : Option (Pool σ) :=
  match p.workers[w]? with
  | some x =>
    if x.phase.listens then some (p.setWorker w fun x ↦ { x with inbox := x.inbox ++ [m] })
    else none
  | none => none

def disconnect (p : Pool σ) (s : Seat) : Pool σ :=
  match s.worker with
  | some w => p.setWorker w fun x ↦ { x with connected := false }
  | none => p

/-- What the inbox of a new worker holds, its replay, the next number and the new tickets. -/
def replayFor (p : Pool σ) (i generation : Nat) :
    List Message × Option RequestId × RequestId × List Ticket :=
  match p.linter with
  | some linter =>
    ([.analyze p.nextId (.initLinter linter) false], some p.nextId, p.nextId + 1,
      [{ id := p.nextId, seat := i, generation, holder := .replay }])
  | none => ([], none, p.nextId, [])

def startWorker (setup : PoolSetup σ) (p : Pool σ) (i : Nat) : Pool σ :=
  match p.seats[i]? with
  | none => p
  | some s =>
    let w := p.workers.length
    let generation := s.generation + 1
    let (inbox, replay, nextId, tickets) := p.replayFor i generation
    let worker : Worker σ := { seat := i, generation, session := setup.session w i, inbox, replay }
    let seat : Seat :=
      { worker := some w
        generation
        state := .starting
        restarts := if s.worker.isSome then s.restarts + 1 else s.restarts }
    let p := p.disconnect s
    { p with
      workers := p.workers ++ [worker]
      tickets := p.tickets ++ tickets
      nextId
      seats := p.seats.set i seat }

def isUsable (p : Pool σ) (s : Seat) : Bool :=
  match s.worker.bind fun w ↦ p.workers[w]? with
  | some x => x.phase ≠ .gone && !s.state.isFinal
  | none => false

def ensureWorker (setup : PoolSetup σ) (p : Pool σ) (i : Nat) : Pool σ :=
  match p.seats[i]? with
  | some s => if p.isUsable s then p else p.startWorker setup i
  | none => p

def refusal (i : Nat) (id : RequestId) : AnalysisError :=
  .workerFailure ("Worker " ++ toString i ++ " could not accept request " ++ toString id)

/-- Puts a request into the inbox of the worker of a seat, with so many tries. -/
def enqueueWithin (setup : PoolSetup σ) (i : Nat) (id : RequestId) (m : Message) :
    Nat → Pool σ → Except AnalysisError Unit × Pool σ
  | 0, p => (.error (refusal i id), p)
  | tries + 1, p =>
    let p := p.ensureWorker setup i
    match p.seats[i]? with
    | none => (.error (refusal i id), p)
    | some s =>
      match s.worker.bind fun w ↦ p.send w m with
      | some q =>
        let t : Ticket := { id, seat := i, generation := s.generation, holder := .caller }
        (.ok (), { q.setSeat i Seat.occupy with tickets := q.tickets ++ [t] })
      | none => enqueueWithin setup i id m tries (p.setSeat i fun s ↦ { s with state := .errored })

def enqueue (setup : PoolSetup σ) (p : Pool σ) (i : Nat) (id : RequestId) (request : Request)
    (streaming : Bool) : Except AnalysisError Unit × Pool σ :=
  enqueueWithin setup i id (.analyze id request streaming) 2 p

def shuttingDown : AnalysisError :=
  .workerFailure "Workers are shutting down"

def giveNumber (p : Pool σ) : Except AnalysisError RequestId × Pool σ :=
  if p.closed then (.error shuttingDown, p)
  else (.ok p.nextId, { p with nextId := p.nextId + 1 })

def leastBusy (load : Nat → Nat) : List Nat → Nat
  | [] => 0
  | [i] => i
  | i :: rest =>
    let j := leastBusy load rest
    if load j < load i then j else i

def load (p : Pool σ) (i : Nat) : Nat :=
  (p.seats[i]?.map Seat.inFlight).getD 0

/-- Chooses a seat: the one that owns the program of the request, or the least busy one. -/
def choose [Digest] (setup : PoolSetup σ) (p : Pool σ) (request : Request) : Nat × Pool σ :=
  let count := p.seats.length
  match request.affinity with
  | some key => (setup.affinity key % count, p)
  | none =>
    let order := (List.range count).map fun offset ↦ (p.turn % count + offset) % count
    (leastBusy p.load order, { p with turn := p.turn + 1 })

def remember (p : Pool σ) : Request → Pool σ
  | .initLinter linter => { p with linter := some linter }
  | _ => p

def start (setup : PoolSetup σ) (count : Nat) (disk : Disk) : Pool σ :=
  let count := max count 1
  (List.range count).foldl (startWorker setup) { disk, seats := List.replicate count {} }

end AnalysisServer.Pool
