import AnalysisServer.Pool.Dispatch

namespace AnalysisServer.Pool

variable {σ : Type}

def beginClose (p : Pool σ) : Option (Pool σ) :=
  if p.closed then none else some { p with closed := true, closing := .asking 0 [] }

def askToLeave (p : Pool σ) (i : Nat) (s : Seat) : Option Leaver × Pool σ :=
  if s.state.isFinal then (none, p)
  else
    let p := p.setSeat i fun s ↦ { s with state := .closing }
    match s.worker with
    | none => (none, p)
    | some w =>
      match p.send w .close with
      | some q => (some ⟨i, s.generation, w⟩, q)
      | none => (none, p)

def hasEnded (p : Pool σ) (l : Leaver) : Bool :=
  match p.workers[l.worker]? with
  | some x => x.monitor = .through
  | none => true

/-- The next step of closing, unless a worker has to be waited for. -/
def closeStep (now : Nat) (p : Pool σ) : Option (Pool σ) :=
  match p.closing with
  | .notYet | .done => none
  | .asking next asked =>
    match p.seats[next]? with
    | none => some { p with closing := .awaiting now asked }
    | some s =>
      let (leaver, p) := p.askToLeave next s
      some { p with closing := .asking (next + 1) (asked ++ leaver.toList) }
  | .awaiting _ [] => some { p with closing := .done }
  | .awaiting _ (l :: rest) =>
    if p.hasEnded l then some { p with closing := .awaiting now rest } else none

def graceOver (now : Nat) (p : Pool σ) : Option (Pool σ) :=
  match p.closing with
  | .awaiting _ (l :: rest) =>
    some { p.update l.seat l.generation (fun s ↦ { s with state := .errored }) with
      closing := .awaiting now rest }
  | _ => none

end AnalysisServer.Pool
