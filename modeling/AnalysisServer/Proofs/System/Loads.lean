import AnalysisServer.Proofs.System.Ledger

namespace AnalysisServer.System

variable {σ : Type}

/-- The seat and the generation that an event is about, if it is about any. -/
def about (s : System σ) : Event → Option (Nat × Nat)
  | .work w | .monitor w | .replay w => s.pool.workers[w]?.map fun x ↦ (x.seat, x.generation)
  | .drain id => (s.pool.ticket? id).map fun t ↦ (t.seat, t.generation)
  | .call c =>
    match s.calls[c]?.map Call.stage with
    | some (.waiting id) | some (.gathering (.ok id :: _) _) =>
      (s.pool.ticket? id).map fun t ↦ (t.seat, t.generation)
    | some (.numbered seat _) | some (.spreading seat (some _) _) =>
      s.pool.seats[seat]?.map fun x ↦ (seat, x.generation)
    | _ => none
  | .close => s.pool.nextToClose
  | .graceOver => s.pool.nextToGoOver
  | _ => none

section

variable {s s' : System σ} {id : RequestId} {q : Pool σ}

open Pool in
theorem reaches_hear {heard : Heard} (h : s.pool.hear id = some (heard, q)) :
    s.pool.Reaches q ((s.pool.ticket? id).map fun t ↦ (t.seat, t.generation)) := by
  cases ht : s.pool.ticket? id with
  | none => simp [hear, ht] at h
  | some t => exact .hear ht h

open Pool in
theorem reaches_enqueue {setup : PoolSetup σ} {i : Nat} {request : Request}
    {streaming : Bool} {result : Except AnalysisError Unit}
    (h : s.pool.enqueue setup i id request streaming = (result, q)) :
    s.pool.Reaches q (s.pool.seats[i]?.map fun x ↦ (i, x.generation)) := by
  cases hi : s.pool.seats[i]? with
  | none =>
    intro j seat hj _
    refine (seats_enqueue setup h fun hij ↦ ?_).trans hj
    rw [hij, hi] at hj
    cases hj
  | some seat => exact .of_others hi fun j hj ↦ seats_enqueue setup h hj

variable [Digest] {setup : SystemSetup σ}

theorem reaches_call {c : Nat} {x y : Call} (hx : s.calls[c]? = some x)
    (h : x.Step setup.toPoolSetup s q y) : s.pool.Reaches q (s.about (.call c)) := by
  have hnumber {r o} (hq : s.pool.giveNumber = (r, q)) : s.pool.Reaches q o := by
    unfold Pool.giveNumber at hq
    split at hq <;> cases hq <;> exact .of_seats rfl
  simp only [about, hx, Option.map_some]
  cases h with
  | accept h hd | turnAway h hr ha | gather h hs | gathered h | gatherUnsent h => exact .of_seats rfl
  | remember h hr =>
    unfold Pool.remember
    split <;> exact .of_seats rfl
  | choose h hr =>
    unfold Pool.choose
    split <;> exact .of_seats rfl
  | number h hq | numberRefused h hq | spreadNumber h hs hq | spreadClosed h hs hq => exact hnumber hq
  | send h hq | sendRefused h hq | spreadSend h hs hq | spreadRefused h hs hq =>
    rw [h]
    exact reaches_enqueue hq
  | hearPart h hq | gatherPart h hq | gatherHear h hq =>
    rw [h]
    exact reaches_hear hq
  | hear h hq =>
    rw [h]
    exact (reaches_hear hq).congr rfl

theorem reaches_step {e : Event} (h : s.step setup e = some s') : s.pool.Reaches s'.pool (s.about e) := by
  cases proceeds_of_step h with
  | work hq => exact .of_seats (Pool.seats_workerStep hq)
  | @monitor w _ hq =>
    cases hx : s.pool.workers[w]? with
    | none => simp [Pool.monitorStep, hx] at hq
    | some x =>
      simp only [about, hx, Option.map_some]
      exact .monitorStep hx hq
  | @replay w _ hq =>
    cases hx : s.pool.workers[w]? with
    | none => simp [Pool.replayStep, hx] at hq
    | some x =>
      simp only [about, hx, Option.map_some]
      exact .replayStep hx hq
  | @drain id _ hq =>
    cases ht : s.pool.ticket? id with
    | none => simp [Pool.drainStep, ht] at hq
    | some t =>
      simp only [about, ht, Option.map_some]
      exact .drainStep ht hq
  | call hx hstep hb => exact (reaches_call hx hstep).congr (congrArg Pool.seats hb.pool)
  | timeUp _ _ _ hb | abandon _ _ hb => exact .of_seats (hb.pool ▸ Pool.seats_detachAll _ _)
  | beginClose hq => exact .of_seats (Pool.seats_beginClose hq)
  | close hq => exact .closeStep hq
  | graceOver hq => exact .graceOver hq
  | shutdown _ hpool | drainOver _ hpool => exact .of_seats (congrArg Pool.seats hpool)
  | shutdownClose _ hq => exact .of_seats (Pool.seats_beginClose hq)
  | pass => exact .of_seats rfl

/-- In every run, the requests in flight of a seat are at most those that were sent to its worker and not
released since, and just those as long as something is to be expected of the worker. What is about another
generation or seat leaves the seat as it is. -/
theorem inFlight_accounted {count : Nat} {disk : Disk} {timeouts : List Nat}
    (h : Run setup (opened setup count disk timeouts) s) {i : Nat} {seat : Seat}
    (hi : s.pool.seats[i]? = some seat) :
    seat.inFlight ≤ s.pool.pending i seat.generation ∧
    (seat.state ≠ .exited → seat.state ≠ .errored → seat.inFlight = s.pool.pending i seat.generation) ∧
    (seat.state = .busy → 0 < seat.inFlight) ∧
    (seat.state = .online ∨ seat.state = .idle → seat.inFlight = 0) ∧
    seat.restarts + 1 = seat.generation ∧
    ∀ e s', s.step setup e = some s' → (s.about e ≠ some (i, seat.generation) → s'.pool.seats[i]? = some seat) ∧
      ∀ t ∈ s.pool.tickets, t.isPending → t.isSettled = false → ∃ u ∈ s'.pool.tickets, t.Same u ∧ u.isPending := by
  have hs := (InOrder.opened setup count disk timeouts).run h
  have hb := hs.pool.seat hi
  have hstarted := hs.started hi
  have hrestarts := hb.restarts
  refine ⟨hb.le, fun hexited herrored ↦ hb.eq ?_, hb.busy, fun hfree ↦ hb.free ?_, by omega,
    fun e s' hstep ↦ ⟨reaches_step hstep hi, fun t ht hpending hopen ↦ ?_⟩⟩
  · cases hstate : seat.state <;> simp_all [WorkerState.isFinal]
  · obtain hstate | hstate := hfree <;> rw [hstate] <;> rfl
  · obtain ⟨-, mine, hf⟩ := hs.step hstep
    refine hf.counts ht hpending fun hsettled ↦ ?_
    obtain ⟨u, hu, hid⟩ := List.mem_map.mp hsettled
    obtain ⟨hu, hsettled⟩ := List.mem_filter.mp hu
    rw [Pool.ticket_unique hs.pool.ids_nodup hu ht hid, hopen] at hsettled
    cases hsettled

end

def lateRelease : List Deed :=
  calling (.initLinter bareLinter) none
    (List.replicate 5 (Event.call 0) ++ [Event.work 0, .work 0, .call 0, .call 0]) ++
  calling styleRequest (some 0) (List.replicate 4 (Event.call 1) ++
      [Event.work 0, .monitor 0, .pass 5, .timeUp 1, .work 0, .work 0, .monitor 0]) ++
  calling styleRequest (some 0) (List.replicate 4 (Event.call 2) ++ [Event.work 1, .monitor 1])

def isLate (s : System Bool) : Bool :=
  match s.pool.seats[0]?, s.step (brittleSetup fun _ ↦ true) (.drain 2) with
  | some seat, some s' => seat.state = .busy && seat.generation = 2 && s.pool.pending 0 1 = 1 &&
      s'.pool.pending 0 1 = 0 && s.about (.drain 2) = some (0, 1)
  | _, _ => false

theorem inFlight_accounted_lateRelease : ∃ (s s' : System Bool) (seat : Seat),
    Run (brittleSetup fun _ ↦ true) (opened (brittleSetup fun _ ↦ true) 1 {} [5]) s ∧
      s.pool.seats[0]? = some seat ∧ seat.state = .busy ∧ seat.generation = 2 ∧
      s.pool.pending 0 1 = 1 ∧ s.step (brittleSetup fun _ ↦ true) (.drain 2) = some s' ∧
      s'.pool.pending 0 1 = 0 ∧
      seat.inFlight = s.pool.pending 0 2 ∧ 0 < seat.inFlight ∧ s'.pool.seats[0]? = some seat := by
  have hcheck : (perform (brittleSetup fun _ ↦ true) lateRelease
      (opened (brittleSetup fun _ ↦ true) 1 {} [5])).any isLate := by decide +kernel
  obtain ⟨s, hrun, hlate⟩ := exists_run hcheck
  unfold isLate at hlate
  split at hlate
  · rename_i seat s' hi hstep
    simp only [Bool.and_eq_true, decide_eq_true_eq] at hlate
    obtain ⟨⟨⟨⟨hbusy, hgeneration⟩, hpending⟩, hreleased⟩, habout⟩ := hlate
    obtain ⟨-, heq, hpos, -, -, hstays⟩ := inFlight_accounted hrun hi
    have hkept := (hstays (.drain 2) s' hstep).1 (by rw [habout, hgeneration]; decide)
    rw [hbusy, hgeneration] at heq
    exact ⟨s, s', seat, hrun, hi, hbusy, hgeneration, hpending, hstep, hreleased, heq nofun nofun, hpos hbusy, hkept⟩
  · cases hlate

end AnalysisServer.System
