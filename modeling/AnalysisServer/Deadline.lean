/-!
Deadlines. A deadline that runs gives its notice once its delay is over, unless it is stopped or started anew before.
-/

namespace AnalysisServer

inductive DeadlineState where
  | idle
  | running
  | fired
  | stopped
deriving DecidableEq

def DeadlineState.name : DeadlineState → String
  | .idle => "Idle"
  | .running => "Running"
  | .fired => "Fired"
  | .stopped => "Stopped"

structure Sleeper (α : Type) where
  generation : Nat
  due : Nat
  notice : α

structure Deadline (α : Type) where
  delay : Nat
  state : DeadlineState := .idle
  /-- Goes up whenever what ran before no longer counts. -/
  generation : Nat := 0
  sleepers : List (Sleeper α) := []
  /-- The start whose sleeper can be called off. -/
  task : Option Nat := none
  calledOff : List Nat := []

namespace Deadline

variable {α : Type}

/-- Calls off the sleeper of the latest start, unless it has given notice. -/
def callOff (d : Deadline α) : Deadline α :=
  { d with task := none, calledOff := d.calledOff ++ d.task.toList }

def start (d : Deadline α) (now : Nat) (notice : α) : Deadline α :=
  let generation := d.generation + 1
  { d.callOff with
    state := .running
    generation
    sleepers := d.sleepers ++ [⟨generation, now + d.delay, notice⟩]
    task := some generation }

def stop (d : Deadline α) : Bool × Deadline α :=
  if d.state = .running then
    (true, { d.callOff with state := .stopped, generation := d.generation + 1 })
  else (false, d)

def counts (d : Deadline α) (s : Sleeper α) : Bool :=
  s.generation == d.generation && d.state = .running

def check (d : Deadline α) (s : Sleeper α) : Option α × Deadline α :=
  if d.counts s then (some s.notice, { d with state := .fired, task := none }) else (none, d)

def wake (d : Deadline α) (i : Nat) : Option α × Deadline α :=
  match d.sleepers[i]? with
  | some s => { d with sleepers := d.sleepers.eraseIdx i }.check s
  | none => (none, d)

def elapse (d : Deadline α) (now : Nat) : List α × Deadline α :=
  let due := d.sleepers.filter (·.due ≤ now)
  let rest := { d with sleepers := d.sleepers.filter (now < ·.due) }
  due.foldl
    (fun r s ↦
      let (notice, d) := r.2.check s
      (r.1 ++ notice.toList, d))
    ([], rest)

end Deadline

end AnalysisServer
