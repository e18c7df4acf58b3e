import AnalysisServer.Json.Basic

namespace AnalysisServer

inductive WorkerState where
  | starting
  | online
  | busy
  | idle
  | closing
  | exited
  | errored
deriving DecidableEq, Inhabited

namespace WorkerState

def name : WorkerState → String
  | starting => "Starting"
  | online => "Online"
  | busy => "Busy"
  | idle => "Idle"
  | closing => "Closing"
  | exited => "Exited"
  | errored => "Errored"

def isFinal : WorkerState → Bool
  | exited | errored => true
  | _ => false

def isFree : WorkerState → Bool
  | online | idle => true
  | _ => false

end WorkerState

structure WorkerStats where
  index : Nat
  state : WorkerState
  inFlight : Nat
  restarts : Nat
deriving DecidableEq

namespace WorkerStats

def toJson (s : WorkerStats) : Json :=
  .obj [("inFlight", .ofNat s.inFlight), ("index", .ofNat s.index),
    ("restarts", .ofNat s.restarts), ("state", .str s.state.name)]

def report (stats : List WorkerStats) : Json :=
  .ofList toJson stats

end WorkerStats

end AnalysisServer
