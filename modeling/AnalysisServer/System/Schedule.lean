import AnalysisServer.System.Step

/-!
A schedule for the system. Whatever can happen at once happens at once, callers first, and time goes
by only when nothing else can happen.
-/

namespace AnalysisServer.System

variable {σ : Type}

def agenda (s : System σ) : List Event :=
  let calls := (List.range s.calls.length).map Event.call
  let workers := (List.range s.pool.workers.length).flatMap fun w ↦
    [Event.work w, Event.monitor w, Event.replay w]
  let drains := (s.pool.tickets.filter (·.holder = .drain)).map fun t ↦ Event.drain t.id
  let shutdowns := (List.range s.shutdowns.length).map Event.shutdown
  calls ++ workers ++ drains ++ [.close] ++ shutdowns

def alarms (closeGrace : Nat) (s : System σ) : List (Nat × Event) :=
  let calls := s.calls.zipIdx.flatMap fun (x, c) ↦
    if x.isWaiting then (x.deadline.sleepers.filter x.deadline.counts).map fun z ↦ (z.due, Event.timeUp c)
    else []
  let leavers := match s.pool.closing with
    | .awaiting since (_ :: _) => [(since + closeGrace, Event.graceOver)]
    | _ => []
  let shutdowns := s.shutdowns.zipIdx.flatMap fun (x, i) ↦
    match x.stage with
    | .draining since => [(since + x.grace, Event.drainOver i)]
    | _ => []
  calls ++ leavers ++ shutdowns

def nextAlarm? : List (Nat × Event) → Option (Nat × Event)
  | [] => none
  | a :: rest =>
    match nextAlarm? rest with
    | some b => if b.1 < a.1 then some b else some a
    | none => some a

def begin (s : System σ) (x : Call) : Nat × System σ :=
  (s.calls.length, { s with calls := s.calls ++ [x] })

def beginShutdown (s : System σ) (router grace : Nat) : Nat × System σ :=
  (s.shutdowns.length, { s with shutdowns := s.shutdowns ++ [{ router, grace }] })

variable [Digest]

def settleWithin (setup : SystemSetup σ) : Nat → System σ → System σ
  | 0, s => s
  | steps + 1, s =>
    match s.agenda.findSome? (s.step setup) with
    | some s => settleWithin setup steps s
    | none => s

def ring (setup : SystemSetup σ) (s : System σ) : Option (System σ) :=
  match nextAlarm? (s.alarms setup.closeGrace) with
  | none => none
  | some (due, event) => { s with now := max s.now due }.step setup event

/-- More steps than there ever are without an answer. -/
def patience : Nat :=
  1000000

def settle (setup : SystemSetup σ) (s : System σ) : System σ :=
  settleWithin setup patience s

/-- Goes on until something has come about, through so many alarms. -/
def awaitWithin (setup : SystemSetup σ) (goal : System σ → Bool) : Nat → System σ → System σ
  | 0, s => s.settle setup
  | alarms + 1, s =>
    let s := s.settle setup
    if goal s then s
    else
      match s.ring setup with
      | some s => awaitWithin setup goal alarms s
      | none => s

def await (setup : SystemSetup σ) (goal : System σ → Bool) (s : System σ) : System σ :=
  awaitWithin setup goal patience s

end AnalysisServer.System
