import AnalysisServer.Pool.Work
import AnalysisServer.System.Calls
import AnalysisServer.System.Shutdown

namespace AnalysisServer.System

variable {σ : Type}

def step [Digest] (setup : SystemSetup σ) (s : System σ) : Event → Option (System σ)
  | .work w => (s.pool.workerStep setup.engine w).map fun pool ↦ { s with pool }
  | .monitor w => (s.pool.monitorStep w).map fun pool ↦ { s with pool }
  | .replay w => (s.pool.replayStep w).map fun pool ↦ { s with pool }
  | .drain id => (s.pool.drainStep id).map fun pool ↦ { s with pool }
  | .call c => s.callStep setup.toPoolSetup c
  | .timeUp c => s.timeUp c
  | .abandon c => s.abandon c
  | .beginClose => s.pool.beginClose.map fun pool ↦ { s with pool }
  | .close => (s.pool.closeStep s.now).map fun pool ↦ { s with pool }
  | .graceOver => (s.pool.graceOver s.now).map fun pool ↦ { s with pool }
  | .shutdown i => s.shutdownStep i
  | .drainOver i => s.drainOver i
  | .pass ms => some { s with now := s.now + ms }

end AnalysisServer.System
