import AnalysisServer.Proofs.Pool.Tenure
import AnalysisServer.Proofs.System.Runs

namespace AnalysisServer.System

variable {σ : Type} {o : Override} {e : Event}

def override? (s : System σ) : Event → Option Override
  | .monitor w => s.pool.exitRead? w
  | .graceOver => s.pool.nextToGoOver.map fun o ↦ ⟨o.1, o.2, .errored⟩
  | _ => none

def overrides (past : List (System σ × Event)) : List Override :=
  past.filterMap fun m ↦ m.1.override? m.2

theorem mem_overrides_append {past later : List (System σ × Event)} :
    o ∈ overrides (past ++ later) ↔ o ∈ overrides past ∨ o ∈ overrides later := by
  simp [overrides, List.filterMap_append]

theorem mem_overrides_concat {past : List (System σ × Event)} {s : System σ} :
    o ∈ overrides (past ++ [(s, e)]) ↔ o ∈ overrides past ∨ s.override? e = some o := by
  simp [overrides, List.filterMap_append]

variable [Digest] {setup : SystemSetup σ} {s s' : System σ}

def moments (setup : SystemSetup σ) : List Deed → System σ → List (System σ × Event)
  | [], _ => []
  | .call request streaming router :: rest, s => moments setup rest (s.begin { request, streaming, router }).2
  | .shutdown router grace :: rest, s => moments setup rest (s.beginShutdown router grace).2
  | .event e :: rest, s =>
    (s, e) :: match s.step setup e with
      | some u => moments setup rest u
      | none => []

theorem perform_induction {P : List (System σ × Event) → System σ → Prop}
    (hcall : ∀ past s x, P past s → P past (s.begin x).2)
    (hshutdown : ∀ past s router grace, P past s → P past (s.beginShutdown router grace).2)
    (hstep : ∀ past s e u, s.step setup e = some u → P past s → P (past ++ [(s, e)]) u)
    {deeds : List Deed} {past : List (System σ × Event)} (hs : P past s)
    (hp : perform setup deeds s = some s') : P (past ++ moments setup deeds s) s' := by
  induction deeds generalizing past s with
  | nil =>
    cases hp
    simpa [moments] using hs
  | cons d rest ih =>
    cases d with
    | call request streaming router => exact ih (hcall _ _ _ hs) hp
    | shutdown router grace => exact ih (hshutdown _ _ _ _ hs) hp
    | event e =>
      obtain ⟨u, hu, hp⟩ := Option.bind_eq_some_iff.mp hp
      have hrest := ih (hstep _ _ _ _ hu hs) hp
      simpa [moments, hu] using hrest

theorem Call.Step.rolls {setup : PoolSetup σ} {x y : Call} {q : Pool σ} (h : x.Step setup s q y) :
    s.pool.roll.Step none q.roll := by
  cases h.visited with
  | stay | remember | number => exact .stay
  | enqueue _ hq => exact Pool.rolls_enqueue setup hq
  | hear hq => exact Pool.roll_hear hq
  | hearLast hq =>
    have hroll := Pool.roll_hear hq
    exact hroll

theorem step_rolls (h : s.step setup e = some s') : s.pool.roll.Step (s.override? e) s'.pool.roll := by
  cases proceeds_of_step h with
  | work hq => exact Pool.roll_workerStep hq
  | monitor hq => exact Pool.roll_monitorStep hq
  | replay hq => exact Pool.roll_replayStep hq
  | drain hq => exact Pool.roll_drainStep hq
  | call _ hstep hb =>
    rw [hb.pool]
    exact Call.Step.rolls hstep
  | timeUp _ _ _ hb | abandon _ _ hb =>
    rw [hb.pool, Pool.roll_detachAll]
    exact .stay
  | beginClose hq => exact Pool.roll_beginClose hq
  | close hq => exact Pool.roll_closeStep hq
  | graceOver hq => exact Pool.roll_graceOver hq
  | shutdownClose _ hq => exact Pool.roll_beginClose hq
  | shutdown _ hpool | drainOver _ hpool =>
    rw [hpool]
    exact .stay
  | pass => exact .stay

/-- The time of grace of a generation of a seat ran out in the past. -/
def Overdue (past : List (System σ × Event)) (i g : Nat) : Prop :=
  ⟨i, g, .errored⟩ ∈ overrides past

theorem sound_perform {count : Nat} {disk : Disk} {timeouts : List Nat} {deeds : List Deed}
    (h : perform setup deeds (opened setup count disk timeouts) = some s) :
    s.pool.roll.Sound (Overdue (moments setup deeds (opened setup count disk timeouts))) := by
  have hopened : (opened setup count disk timeouts).pool.roll.Sound (Overdue ([] : List (System σ × Event))) := by
    have hstart := Pool.sound_start setup.toPoolSetup count disk
    exact hstart.congr fun _ _ ↦ by simp [Overdue, overrides]
  refine perform_induction (P := fun past s ↦ s.pool.roll.Sound (Overdue past)) (fun _ _ _ h ↦ h)
    (fun _ _ _ _ h ↦ h) (fun past s e u hu hs ↦ ?_) hopened h
  exact (hs.step (step_rolls hu)).congr fun i g ↦ mem_overrides_concat.symm

end AnalysisServer.System
