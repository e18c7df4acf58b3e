import AnalysisServer.Proofs.Pool.Numbers

namespace AnalysisServer

open List

variable {σ : Type}

structure Worker.Stays (x : Worker σ) : Prop where
  phase : x.phase = .starting ∨ x.phase = .serving
  connected : x.connected = true
  inbox : .close ∉ x.inbox
  notes : .exited ∉ x.notes
  replay : x.replay = none

namespace Pool

variable {p q : Pool σ} {w : WorkerId} {x : Worker σ} {i : Nat} {id : RequestId} {setup : PoolSetup σ}

structure Staffed (p : Pool σ) : Prop where
  count : p.workers.length = p.seats.length
  seat {i : Nat} {s : Seat} : p.seats[i]? = some s → s.worker = some i ∧ s.state.isFinal = false
  worker {x : Worker σ} : x ∈ p.workers → x.Stays

namespace Staffed

theorem of_eq (h : p.Staffed) (hs : q.seats = p.seats) (hw : q.workers = p.workers) : q.Staffed :=
  ⟨by rw [hs, hw]; exact h.count, fun hi ↦ h.seat (hs ▸ hi), fun hx ↦ h.worker (hw ▸ hx)⟩

theorem setWorker (h : p.Staffed) (w : WorkerId) {f : Worker σ → Worker σ}
    (hf : ∀ x : Worker σ, p.workers[w]? = some x → x.Stays → (f x).Stays) : (p.setWorker w f).Staffed := by
  refine ⟨(length_modify ..).trans h.count, h.seat, fun hy ↦ ?_⟩
  obtain ⟨v, hv⟩ := List.getElem?_of_mem hy
  simp only [Pool.setWorker, List.getElem?_modify, Option.map_eq_map] at hv
  obtain ⟨x, hx, rfl⟩ := Option.map_eq_some_iff.mp hv
  have hstays := h.worker (mem_of_getElem? hx)
  split
  · rename_i hw
    exact hf x (hw ▸ hx) hstays
  · exact hstays

variable {f : Seat → Seat} {engine : RuleEngine σ}

section

variable (h : p.Staffed)

include h

theorem setSeat (i : Nat) (hw : ∀ s, (f s).worker = s.worker)
    (hf : ∀ s : Seat, s.state.isFinal = false → (f s).state.isFinal = false) : (p.setSeat i f).Staffed := by
  refine ⟨h.count.trans (length_modify ..).symm, fun {j s'} hj ↦ ?_, h.worker⟩
  simp only [Pool.setSeat, List.getElem?_modify, Option.map_eq_map] at hj
  obtain ⟨s, hs, rfl⟩ := Option.map_eq_some_iff.mp hj
  obtain ⟨hworker, hstate⟩ := h.seat hs
  split
  · exact ⟨(hw s).trans hworker, hf s hstate⟩
  · exact ⟨hworker, hstate⟩

theorem update (i g : Nat) (hw : ∀ s, (f s).worker = s.worker)
    (hf : ∀ s : Seat, s.state.isFinal = false → (f s).state.isFinal = false) :
    (p.update i g f).Staffed := by
  refine h.setSeat i (fun s ↦ ?_) fun s hs ↦ ?_
  · split
    · exact hw s
    · rfl
  · split
    · exact hf s hs
    · exact hs

theorem release (t : Ticket) : (p.release t).Staffed := by
  have hhold : (p.hold t.id .released).Staffed := h.of_eq rfl rfl
  refine hhold.update _ _ (fun _ ↦ rfl) fun s hs ↦ ?_
  simp only [Seat.release]
  split
  · rfl
  · exact hs

theorem workerStep [Digest] (hq : p.workerStep engine w = some q) :
    q.Staffed ∨ ∃ x job, p.workers[w]? = some x ∧ x.work = some job ∧
      q.mailroom = p.mailroom.setDesk w { x.desk with work := none } := by
  obtain ⟨x, hx, said, done, y, disk, -, ha, rfl⟩ := worked_of_workerStep hq
  have hstays := h.worker (mem_of_getElem? hx)
  have hput (hy : y.Stays) {tickets} : { p with tickets, workers := p.workers.set w y, disk }.Staffed := by
    refine ⟨length_set.trans h.count, h.seat, fun hz ↦ ?_⟩
    obtain hz | rfl := mem_or_eq_of_mem_set hz
    · exact h.worker hz
    · exact hy
  have hworks {phase} (hp : x.phase = phase) : phase = .starting ∨ phase = .serving := hp ▸ hstays.phase
  cases ha with
  | report hp =>
    refine .inl (hput ⟨.inr rfl, hstays.connected, hstays.inbox, ?_, hstays.replay⟩)
    simpa using hstays.notes
  | begin hp hw hin hb =>
    refine .inl (hput ⟨hstays.phase, hstays.connected, fun hmem ↦ hstays.inbox ?_, hstays.notes, hstays.replay⟩)
    rw [hin]
    exact .tail _ hmem
  | step | fail =>
    exact .inl (hput ⟨hstays.phase, hstays.connected, hstays.inbox, hstays.notes, hstays.replay⟩)
  | crash hp hw hs =>
    exact .inr ⟨x, _, hx, hw, (mailroom_worked _ _ 0 [] _).trans (Mailroom.say_nil _ _)⟩
  | quit hp hw hin hc =>
    rw [hstays.connected] at hc
    cases hc
  | close hp hw hin => exact (hstays.inbox (hin ▸ .head _)).elim
  | fade hp | drop hp | vanish hp => obtain hp | hp := hworks hp <;> cases hp

theorem monitorStep (hq : p.monitorStep w = some q) : q.Staffed := by
  simp only [Pool.monitorStep, Option.bind_eq_bind, Option.bind_eq_some_iff] at hq
  obtain ⟨x, hx, hq⟩ := hq
  have hstays := h.worker (mem_of_getElem? hx)
  split at hq
  · cases hq
  · have hspeaks : x.phase.speaks = true := by
      obtain hphase | hphase := hstays.phase <;> rw [hphase] <;> rfl
    rw [if_pos hspeaks] at hq
    cases hq
  · rename_i note rest _ hnotes
    have hexited : .exited ∉ note :: rest := hnotes ▸ hstays.notes
    have hread : (p.setWorker w fun x ↦ { x with notes := rest }).Staffed :=
      h.setWorker w fun _ _ hy ↦ ⟨hy.phase, hy.connected, hy.inbox, fun hmem ↦ hexited (.tail _ hmem), hy.replay⟩
    split at hq
    · cases note with
      | exited => exact (hexited (.head _)).elim
      | online =>
        cases hq
        refine hread.update _ _ (fun s ↦ (Seat.online_seating s).1) fun s hs ↦ ?_
        unfold Seat.online
        split
        · split <;> rfl
        · exact hs
    · cases hq
      exact h.setWorker w fun _ _ hy ↦ ⟨hy.phase, hy.connected, hy.inbox, hy.notes, hy.replay⟩

theorem replayStep (w : WorkerId) : p.replayStep w = none := by
  cases hx : p.workers[w]? with
  | none => simp [Pool.replayStep, hx]
  | some x => simp [Pool.replayStep, hx, (h.worker (mem_of_getElem? hx)).replay]

theorem drainStep (hq : p.drainStep id = some q) : q.Staffed := by
  simp only [Pool.drainStep, Option.bind_eq_bind, Option.bind_eq_some_iff] at hq
  obtain ⟨t, -, hq⟩ := hq
  have hread : (p.markRead id).Staffed := h.of_eq rfl rfl
  split at hq
  · split at hq
    · cases hq
      exact hread
    · cases hq
      exact hread.release t
    · split at hq <;> cases hq
      exact h.release t
  · cases hq

theorem hear {heard : Heard} (hq : p.hear id = some (heard, q)) : q.Staffed ∨ ∃ e, heard = .outcome (.error e) := by
  simp only [Pool.hear, Option.bind_eq_bind, Option.bind_eq_some_iff] at hq
  obtain ⟨t, -, hq⟩ := hq
  have hread : (p.markRead id).Staffed := h.of_eq rfl rfl
  split at hq
  · cases hq
    exact .inl hread
  · cases hq
    exact .inl (hread.release t)
  · split at hq <;> cases hq
    exact .inr ⟨_, rfl⟩

theorem enqueue {request : Request} {streaming : Bool}
    {r : Except AnalysisError Unit} (hq : p.enqueue setup i id request streaming = (r, q)) :
    q.Staffed ∧ ((∃ g d, r = .ok () ∧ p.mailroom.seats[i]? = some (some i, g) ∧
        p.mailroom.desks[i]? = some d ∧ q.mailroom = p.mailroom.deliver i g i d id request streaming) ∨
      (∃ e, r = .error e) ∧ q = p) := by
  cases enqueued hq with
  | nowhere hi => exact ⟨h, .inr ⟨⟨_, rfl⟩, rfl⟩⟩
  | @given s w x hi hf hw hx hl =>
    cases (h.seat hi).1.symm.trans hw
    have hput := h.setWorker i (f := fun x ↦ { x with inbox := x.inbox ++ [.analyze id request streaming] })
      fun _ _ hy ↦ ⟨hy.phase, hy.connected, by simpa using hy.inbox, hy.notes, hy.replay⟩
    have hoccupied := hput.setSeat i (f := Seat.occupy) (fun s ↦ (Seat.occupy_seating s).1) fun s hs ↦ by
      simp only [Seat.occupy]
      split
      · rfl
      · exact hs
    rw [Pool.setSeat, Pool.setWorker, modify_eq_set hi, modify_eq_set hx] at hoccupied
    refine ⟨hoccupied.of_eq rfl rfl, .inl ⟨s.generation, x.desk, rfl, ?_, desks_of_workers hx, mailroom_give hi⟩⟩
    simp [mailroom, hi, hw]
  | @started s s' x hi hu hi' hw hx =>
    -- every seat has a worker that listens
    obtain ⟨hworker, hstate⟩ := h.seat hi
    have hget := List.getElem?_eq_getElem (h.count ▸ lt_of_getElem? hi)
    obtain hf | hdeaf := hu
    · cases hstate.symm.trans hf
    · have hlistens := hdeaf i _ hworker hget
      obtain hphase | hphase := (h.worker (mem_of_getElem? hget)).phase <;> rw [hphase] at hlistens <;>
        cases hlistens

end

end Staffed

structure Filled (setup : PoolSetup σ) (k n : Nat) (p : Pool σ) : Prop where
  linter : p.linter = none
  workers : p.workers.length = k
  seats : p.seats.length = n
  taken {i : Nat} {s : Seat} : p.seats[i]? = some s → i < k → s.worker = some i ∧ s.state.isFinal = false
  free {i : Nat} {s : Seat} : p.seats[i]? = some s → k ≤ i → s.worker = none
  worker {w : WorkerId} {x : Worker σ} : p.workers[w]? = some x →
    x.Stays ∧ x.session = setup.session w w ∧ x.inbox = [] ∧ x.work = none

theorem Filled.startWorker {k n : Nat} (h : p.Filled setup k n) (hk : k < n) :
    (p.startWorker setup k).Filled setup (k + 1) n := by
  have hlt : k < p.seats.length := h.seats ▸ hk
  have hs : p.seats[k]? = some p.seats[k] := List.getElem?_eq_getElem hlt
  have hfree := h.free hs (Nat.le_refl k)
  have hstart : p.startWorker setup k = { p with
      workers := p.workers ++ [{ seat := k, generation := p.seats[k].generation + 1, session := setup.session k k }]
      seats := p.seats.set k { worker := some k, generation := p.seats[k].generation + 1, state := .starting,
                               restarts := p.seats[k].restarts } } := by
    simp [Pool.startWorker, hs, replayFor, h.linter, disconnect, hfree, h.workers]
  rw [hstart]
  refine ⟨h.linter, ?_, ?_, fun {i s} hi hik ↦ ?_, fun {i s} hi hik ↦ ?_, fun {w x} hx ↦ ?_⟩
  · simp [h.workers]
  · simp [h.seats]
  · obtain hik | rfl := Nat.lt_succ_iff_lt_or_eq.mp hik
    · rw [List.getElem?_set_ne (Nat.ne_of_gt hik)] at hi
      exact h.taken hi hik
    · rw [List.getElem?_set_self hlt] at hi
      cases hi
      exact ⟨rfl, rfl⟩
  · rw [List.getElem?_set_ne (Nat.ne_of_lt hik)] at hi
    exact h.free hi (Nat.le_of_succ_le hik)
  · obtain hx | ⟨rfl, rfl⟩ := getElem?_concat_cases hx
    · exact h.worker hx
    · rw [h.workers]
      exact ⟨⟨.inl rfl, rfl, by simp, by simp, rfl⟩, rfl, rfl, rfl⟩

theorem filled_range (setup : PoolSetup σ) (count : Nat) (disk : Disk) {k : Nat} (hk : k ≤ max count 1) :
    ((List.range k).foldl (startWorker setup)
      ({ disk, seats := List.replicate (max count 1) {} } : Pool σ)).Filled setup k (max count 1) := by
  induction k with
  | zero =>
    refine ⟨rfl, rfl, length_replicate, nofun, fun hi _ ↦ ?_, nofun⟩
    rw [eq_of_mem_replicate (mem_of_getElem? hi)]
  | succ k ih =>
    rw [range_succ, foldl_append]
    exact (ih (Nat.le_of_succ_le hk)).startWorker hk

theorem filled_start (setup : PoolSetup σ) (count : Nat) (disk : Disk) :
    (start setup count disk).Filled setup (max count 1) (max count 1) :=
  filled_range setup count disk (Nat.le_refl _)

theorem Filled.staffed {n : Nat} (h : p.Filled setup n n) : p.Staffed := by
  refine ⟨h.workers.trans h.seats.symm, fun hi ↦ h.taken hi ?_, fun hx ↦ ?_⟩
  · exact h.seats ▸ (lt_of_getElem? hi)
  · obtain ⟨w, hw⟩ := List.getElem?_of_mem hx
    exact (h.worker hw).1

end Pool

end AnalysisServer
