import AnalysisServer.Pool.State
import AnalysisServer.Session.Task

/-!
A pool of workers. It has a number of seats, and in each seat there is one worker after the other; a worker that was
replaced may live on for a while.
-/

namespace AnalysisServer

abbrev RequestId := Nat

abbrev WorkerId := Nat

inductive Message where
  | analyze (id : RequestId) (request : Request) (streaming : Bool)
  | close

def Message.id? : Message → Option RequestId
  | analyze id _ _ => some id
  | close => none

inductive Reply where
  | part (p : Partial)
  | final (outcome : Except AnalysisError Response)

/-- Who reads a ticket: the caller, somebody who only waits for the end of a request that the caller
has given up, or somebody who looks whether a replacement has accepted its linter. A ticket that is
released is read by nobody. -/
inductive Holder where
  | caller
  | drain
  | replay
  | released
deriving DecidableEq

structure Ticket where
  id : RequestId
  seat : Nat
  generation : Nat
  holder : Holder
  written : List Reply := []
  read : Nat := 0
  complete : Bool := false

namespace Ticket

def next? (t : Ticket) : Option Reply :=
  t.written[t.read]?

def isPending (t : Ticket) : Bool :=
  t.holder = .caller || t.holder = .drain

end Ticket

structure Seat where
  worker : Option WorkerId := none
  generation : Nat := 0
  state : WorkerState := .exited
  inFlight : Nat := 0
  restarts : Nat := 0

/-- What a worker lets others know about itself. -/
inductive Note where
  | online
  | exited
deriving DecidableEq

/-- The way of a worker from its start to its end. On its last steps it stops sending notes, then
stops taking messages, and then lets go of its session. -/
inductive Phase where
  | starting
  | serving
  | leaving
  | silent
  | deaf
  | gone
deriving DecidableEq

namespace Phase

def listens : Phase → Bool
  | deaf | gone => false
  | _ => true

def speaks : Phase → Bool
  | starting | serving | leaving => true
  | _ => false

end Phase

/-- Whoever watches a worker has seen its note of leaving or not, or is through. -/
inductive Monitor where
  | watching (exited : Bool)
  | through
deriving DecidableEq

structure Work where
  id : RequestId
  task : Task

structure Worker (σ : Type) where
  seat : Nat
  generation : Nat
  session : Session σ
  phase : Phase := .starting
  inbox : List Message := []
  connected : Bool := true
  work : Option Work := none
  notes : List Note := []
  monitor : Monitor := .watching false
  /-- The request that installs the linter of a replacement, as long as it is watched. -/
  replay : Option RequestId := none

structure Leaver where
  seat : Nat
  generation : Nat
  worker : WorkerId

inductive Closing where
  | notYet
  | asking (next : Nat) (asked : List Leaver)
  /-- Waits for the first of those who are left, since a time. -/
  | awaiting (since : Nat) (left : List Leaver)
  | done

def Closing.isDone : Closing → Bool
  | done => true
  | _ => false

structure Pool (σ : Type) where
  disk : Disk
  seats : List Seat
  workers : List (Worker σ) := []
  tickets : List Ticket := []
  nextId : RequestId := 1
  turn : Nat := 0
  linter : Option Linter := none
  closed : Bool := false
  closing : Closing := .notYet

structure PoolSetup (σ : Type) where
  engine : RuleEngine σ
  /-- The session of the worker with a number, which is for a seat. -/
  session : WorkerId → Nat → Session σ
  /-- A number for each text, from which the seat that owns it is found. -/
  affinity : String → Nat

namespace Pool

variable {σ : Type}

def setSeat (p : Pool σ) (i : Nat) (f : Seat → Seat) : Pool σ :=
  { p with seats := p.seats.modify i f }

/-- Changes a seat as long as its worker is of the given generation. -/
def update (p : Pool σ) (i generation : Nat) (f : Seat → Seat) : Pool σ :=
  p.setSeat i fun s ↦ if s.generation = generation then f s else s

def setWorker (p : Pool σ) (w : WorkerId) (f : Worker σ → Worker σ) : Pool σ :=
  { p with workers := p.workers.modify w f }

def setTicket (p : Pool σ) (id : RequestId) (f : Ticket → Ticket) : Pool σ :=
  { p with tickets := p.tickets.map fun t ↦ if t.id = id then f t else t }

def ticket? (p : Pool σ) (id : RequestId) : Option Ticket :=
  p.tickets.find? (·.id = id)

def write (p : Pool σ) (id : RequestId) (r : Reply) : Pool σ :=
  p.setTicket id fun t ↦ { t with written := t.written ++ [r] }

def complete (p : Pool σ) (id : RequestId) : Pool σ :=
  p.setTicket id fun t ↦ { t with complete := true }

def markRead (p : Pool σ) (id : RequestId) : Pool σ :=
  p.setTicket id fun t ↦ { t with read := t.read + 1 }

def hold (p : Pool σ) (id : RequestId) (h : Holder) : Pool σ :=
  p.setTicket id fun t ↦ { t with holder := h }

end Pool

def Seat.release (s : Seat) : Seat :=
  let inFlight := s.inFlight - 1
  { s with inFlight, state := if inFlight = 0 ∧ s.state = .busy then .idle else s.state }

def Seat.occupy (s : Seat) : Seat :=
  { s with inFlight := s.inFlight + 1, state := if s.state.isFree then .busy else s.state }

namespace Pool

variable {σ : Type}

def release (p : Pool σ) (t : Ticket) : Pool σ :=
  (p.hold t.id .released).update t.seat t.generation Seat.release

def stats (p : Pool σ) : List WorkerStats :=
  p.seats.zipIdx.map fun (s, index) ↦
    { index, state := s.state, inFlight := s.inFlight, restarts := s.restarts }

end Pool

end AnalysisServer
