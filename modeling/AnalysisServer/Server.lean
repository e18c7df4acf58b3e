import AnalysisServer.Channel
import AnalysisServer.Http.Handling
import AnalysisServer.System.Schedule

/-!
The server: a system with one router, which is reached over HTTP and over channels as long as it has
not been shut down.
-/

namespace AnalysisServer

structure Server (σ : Type) where
  system : System σ
  /-- How long requests, and then workers, are waited for at the end. -/
  grace : Nat
  listening : Bool := true

namespace Server

variable {σ : Type}

def start (setup : PoolSetup σ) (workers timeout grace : Nat) (disk : Disk) : Server σ :=
  { system := { pool := Pool.start setup workers disk, routers := [{ timeout }] }
    grace }

def setup (server : Server σ) (pool : PoolSetup σ) : SystemSetup σ :=
  { pool with closeGrace := server.grace }

variable [Digest] [TextPaths] (pool : PoolSetup σ)

def route (request : Request) (streaming : Bool) (server : Server σ) :
    (List Partial × Except AnalysisError Response) × Server σ :=
  let (c, system) := server.system.begin { request, streaming, router := some 0 }
  let isOver (s : System σ) : Bool := (s.calls[c]?.map Call.isOpen) = some false
  let system := system.await (server.setup pool) isOver
  let server := { server with system }
  match system.calls[c]? with
  | some x => ((x.heard, x.outcome?.getD (.error System.stopped)), server)
  | none => (([], .error System.stopped), server)

/-- Takes no more connections, waits for what is in flight and closes the workers. -/
def shutdown (server : Server σ) : Server σ :=
  let (i, system) := server.system.beginShutdown 0 server.grace
  let system := system.await (server.setup pool) fun s ↦ s.shutdowns[i]?.any Shutdown.isDone
  { server with system, listening := false }

def http (r : Http.Request) (server : Server σ) : Option Http.Reply × Server σ :=
  if server.listening then
    match r.handling with
    | .reply reply => (some (r.send reply), server)
    | .report => (some (.json .ok (WorkerStats.report server.system.pool.stats)), server)
    | .openChannel => (none, server)
    | .stop => (some (.text .ok Response.acknowledgement), server.shutdown pool)
    | .analyze request =>
      let ((_, outcome), server) := server.route pool request false
      (some (.ofOutcome outcome), server)
  else (none, server)

def channel (frames : List Channel.Frame) (server : Server σ) :
    Option (List (List Json)) × Server σ :=
  if server.listening then
    let (answers, server) := Channel.serve (fun r ↦ route pool r true) frames server
    (some answers, server)
  else (none, server)

end Server

end AnalysisServer
