import AnalysisServer.Pool.Dispatch
import AnalysisServer.Pool.Watch
import AnalysisServer.Pool.Work
import AnalysisServer.Proofs.Session.Linters

/-!
The mail of a pool: what lies on the desks of its workers, what is written on its tickets, and who sits where.
-/

namespace AnalysisServer

/-- The mail of a worker, and the linter with which it is served. -/
structure Desk where
  seat : Nat
  generation : Nat
  linter : Option Linter
  inbox : List Message
  work : Option Work

structure Slip where
  id : RequestId
  seat : Nat
  generation : Nat
  written : List Reply

def Slip.add (id : RequestId) (rs : List Reply) (t : Slip) : Slip :=
  { t with written := if t.id = id then t.written ++ rs else t.written }

structure Mailroom where
  desks : List Desk
  slips : List Slip
  seats : List (Option WorkerId × Nat)
  nextId : RequestId
  linter : Option Linter

variable {σ : Type} {w : WorkerId} {id : RequestId}

def Worker.desk (x : Worker σ) : Desk :=
  ⟨x.seat, x.generation, x.session.linter, x.inbox, x.work⟩

def Ticket.slip (t : Ticket) : Slip :=
  ⟨t.id, t.seat, t.generation, t.written⟩

def Pool.mailroom (p : Pool σ) : Mailroom :=
  { desks := p.workers.map Worker.desk
    slips := p.tickets.map Ticket.slip
    seats := p.seats.map fun s ↦ (s.worker, s.generation)
    nextId := p.nextId
    linter := p.linter }

namespace Mailroom

def setDesk (m : Mailroom) (w : WorkerId) (d : Desk) : Mailroom :=
  { m with desks := m.desks.set w d }

def say (m : Mailroom) (id : RequestId) (rs : List Reply) : Mailroom :=
  { m with slips := m.slips.map (Slip.add id rs) }

def replay (m : Mailroom) : List Message :=
  match m.linter with
  | some linter => [.analyze m.nextId (.initLinter linter) false]
  | none => []

def start (m : Mailroom) (i generation : Nat) (linter : Option Linter) : Mailroom :=
  { m with
    desks := m.desks ++ [⟨i, generation, linter, m.replay, none⟩]
    slips := m.slips ++ m.replay.map fun _ ↦ ⟨m.nextId, i, generation, []⟩
    seats := m.seats.set i (some m.desks.length, generation)
    nextId := m.nextId + m.replay.length }

/-- A request is put on the desk of a worker, with a ticket for its seat and generation. -/
def deliver (m : Mailroom) (i generation : Nat) (w : WorkerId) (d : Desk) (id : RequestId)
    (request : Request) (streaming : Bool) : Mailroom :=
  { m with
    desks := m.desks.set w { d with inbox := d.inbox ++ [.analyze id request streaming] }
    slips := m.slips ++ [⟨id, i, generation, []⟩] }

end Mailroom

namespace Pool

variable {p : Pool σ}

theorem desks_eq_some {d : Desk} : p.mailroom.desks[w]? = some d ↔ ∃ x, p.workers[w]? = some x ∧ x.desk = d := by
  simp [mailroom, List.getElem?_map]

theorem mailroom_setWorker_same {w : WorkerId} {f : Worker σ → Worker σ}
    (hf : ∀ x, (f x).desk = x.desk) : (p.setWorker w f).mailroom = p.mailroom := by
  simp only [setWorker, mailroom, map_modify_same hf]

theorem mailroom_setTicket_same {f : Ticket → Ticket}
    (hf : ∀ t, (f t).slip = t.slip) : (p.setTicket id f).mailroom = p.mailroom := by
  have hslips : (p.tickets.map fun t ↦ if t.id = id then f t else t).map Ticket.slip = p.tickets.map Ticket.slip := by
    rw [List.map_map]
    refine List.map_congr_left fun t _ ↦ ?_
    simp only [Function.comp_apply]
    split
    · exact hf t
    · rfl
  simp only [setTicket, mailroom, hslips]

@[simp] theorem mailroom_complete (id : RequestId) : (p.complete id).mailroom = p.mailroom :=
  mailroom_setTicket_same fun _ ↦ rfl

@[simp] theorem mailroom_markRead (id : RequestId) : (p.markRead id).mailroom = p.mailroom :=
  mailroom_setTicket_same fun _ ↦ rfl

@[simp] theorem mailroom_hold (id : RequestId) (h : Holder) : (p.hold id h).mailroom = p.mailroom :=
  mailroom_setTicket_same fun _ ↦ rfl

@[simp] theorem mailroom_detach (id : RequestId) : (p.detach id).mailroom = p.mailroom :=
  mailroom_setTicket_same fun t ↦ by split <;> rfl

theorem mailroom_detachAll (ids : List RequestId) : (ids.foldl detach p).mailroom = p.mailroom :=
  foldl_same mailroom (fun _ id ↦ mailroom_detach id) ids p

@[simp] theorem mailroom_write (id : RequestId) (r : Reply) : (p.write id r).mailroom = p.mailroom.say id [r] := by
  simp only [write, setTicket, mailroom, Mailroom.say, List.map_map]
  congr 1
  refine List.map_congr_left fun t _ ↦ ?_
  by_cases h : t.id = id <;> simp [h, Ticket.slip, Slip.add]

theorem mailroom_setSeat {i : Nat} {f : Seat → Seat}
    (hf : ∀ s, (f s).worker = s.worker ∧ (f s).generation = s.generation) :
    (p.setSeat i f).mailroom = p.mailroom := by
  have hseats := @map_modify_same _ _ p.seats (fun s ↦ (s.worker, s.generation)) f
    (fun s ↦ Prod.ext (hf s).1 (hf s).2) i
  simp only [setSeat, mailroom, hseats]

theorem mailroom_update {i generation : Nat} {f : Seat → Seat}
    (hf : ∀ s, (f s).worker = s.worker ∧ (f s).generation = s.generation) :
    (p.update i generation f).mailroom = p.mailroom := by
  refine mailroom_setSeat fun s ↦ ?_
  split
  · exact hf s
  · exact ⟨rfl, rfl⟩

end Pool

namespace Seat

theorem release_seating (s : Seat) : s.release.worker = s.worker ∧ s.release.generation = s.generation :=
  ⟨rfl, rfl⟩

theorem occupy_seating (s : Seat) : s.occupy.worker = s.worker ∧ s.occupy.generation = s.generation :=
  ⟨rfl, rfl⟩

theorem online_seating (s : Seat) : s.online.worker = s.worker ∧ s.online.generation = s.generation := by
  unfold online
  split <;> exact ⟨rfl, rfl⟩

theorem exited_seating (s : Seat) : s.exited.worker = s.worker ∧ s.exited.generation = s.generation :=
  ⟨rfl, rfl⟩

theorem crashed_seating (s : Seat) : s.crashed.worker = s.worker ∧ s.crashed.generation = s.generation := by
  unfold crashed
  split <;> exact ⟨rfl, rfl⟩

theorem fail_seating (s : Seat) : s.fail.worker = s.worker ∧ s.fail.generation = s.generation := by
  unfold fail
  split <;> exact ⟨rfl, rfl⟩

end Seat

namespace Pool

variable {p q : Pool σ}

@[simp] theorem mailroom_release (t : Ticket) : (p.release t).mailroom = p.mailroom :=
  (mailroom_update Seat.release_seating).trans (mailroom_hold _ _)

@[simp] theorem mailroom_setMonitor (w : WorkerId) (m : Monitor) : (p.setMonitor w m).mailroom = p.mailroom :=
  mailroom_setWorker_same fun _ ↦ rfl

@[simp] theorem mailroom_forgetReplay (w : WorkerId) (id : RequestId) :
    (p.forgetReplay w id).mailroom = p.mailroom := by
  refine Eq.trans (mailroom_setWorker_same ?_) (mailroom_hold id .released)
  exact fun _ ↦ rfl

theorem mailroom_monitorStep (h : p.monitorStep w = some q) : q.mailroom = p.mailroom := by
  simp only [monitorStep, Option.bind_eq_bind, Option.bind_eq_some_iff] at h
  obtain ⟨x, -, h⟩ := h
  split at h
  · cases h
  · split at h
    · cases h
    · cases h
      rw [mailroom_setMonitor]
      split
      · rfl
      · exact mailroom_update Seat.crashed_seating
  · split at h
    · split at h <;> cases h
      · exact (mailroom_update Seat.online_seating).trans (mailroom_setWorker_same fun _ ↦ rfl)
      · rw [mailroom_setMonitor]
        exact (mailroom_update Seat.exited_seating).trans (mailroom_setWorker_same fun _ ↦ rfl)
    · cases h
      exact mailroom_setMonitor _ _

theorem mailroom_replayStep (h : p.replayStep w = some q) : q.mailroom = p.mailroom := by
  simp only [replayStep, Option.bind_eq_bind, Option.bind_eq_some_iff] at h
  obtain ⟨x, -, id, -, t, -, h⟩ := h
  split at h
  · cases h
    exact mailroom_markRead id
  · cases h
    simp
  · cases h
    rw [mailroom_update Seat.fail_seating]
    simp
  · split at h <;> cases h
    exact mailroom_forgetReplay w id

theorem mailroom_drainStep (h : p.drainStep id = some q) : q.mailroom = p.mailroom := by
  simp only [drainStep, Option.bind_eq_bind, Option.bind_eq_some_iff] at h
  obtain ⟨t, -, h⟩ := h
  split at h
  · split at h
    · cases h
      exact mailroom_markRead id
    · cases h
      simp
    · split at h <;> cases h
      exact mailroom_release t
  · cases h

theorem mailroom_hear {r : Heard} (h : p.hear id = some (r, q)) :
    q.mailroom = p.mailroom ∧ ∀ response, r = .outcome (.ok response) →
      ∃ t ∈ p.mailroom.slips, t.id = id ∧ .final (.ok response) ∈ t.written := by
  simp only [hear, Option.bind_eq_bind, Option.bind_eq_some_iff] at h
  obtain ⟨t, ht, h⟩ := h
  split at h
  · cases h
    exact ⟨mailroom_markRead id, fun _ hr ↦ by cases hr⟩
  · rename_i outcome hnext
    cases h
    refine ⟨by simp, fun response hr ↦ ?_⟩
    cases hr
    have hid : t.id = id := by simpa using List.find?_some ht
    exact ⟨t.slip, List.mem_map_of_mem (List.mem_of_find?_eq_some ht), hid, List.mem_of_getElem? hnext⟩
  · split at h
    · cases h
      refine ⟨?_, fun _ hr ↦ by cases hr⟩
      rw [mailroom_release, mailroom_update Seat.fail_seating]
    · cases h

end Pool

end AnalysisServer
