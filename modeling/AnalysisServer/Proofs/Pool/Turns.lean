import AnalysisServer.Pool.Close
import AnalysisServer.Proofs.Pool.Deliveries
import AnalysisServer.Proofs.Pool.Shifts

namespace AnalysisServer

def Request.IsPlain (r : Request) : Prop :=
  (∃ linter, r = .initLinter linter) ∨ ∃ input kind, r.file? = some (input, kind)

/-- All mail on a desk is about linters and single files, and no file is worked on without a linter. -/
structure Desk.Plain (d : Desk) : Prop where
  inbox {message : Message} : message ∈ d.inbox →
    ∃ id request streaming, message = .analyze id request streaming ∧ request.IsPlain
  work {job : Work} : d.work = some job → (∃ unit, job.task = .file unit) ∧ d.linter.isSome

namespace Mailroom

def Plain (m : Mailroom) : Prop :=
  ∀ ⦃w : WorkerId⦄ ⦃d : Desk⦄, m.desks[w]? = some d → d.Plain

inductive Prepared (fresh : WorkerId → Nat → Option Linter) (i : Nat) : Mailroom → Mailroom → Prop
  | ready (m : Mailroom) : Prepared fresh i m m
  | start {m m' seat} (hi : m.seats[i]? = some seat)
      (h : Prepared fresh i (m.start i (seat.2 + 1) (fresh m.desks.length i)) m') :
      Prepared fresh i m m'

inductive Asked (m : Mailroom) : Mailroom → Prop
  | nobody : Asked m m
  | worker {w d} (hd : m.desks[w]? = some d) : Asked m (m.setDesk w { d with inbox := d.inbox ++ [.close] })

end Mailroom

def PoolSetup.fresh {σ : Type} (setup : PoolSetup σ) (w : WorkerId) (i : Nat) : Option Linter :=
  (setup.session w i).linter

namespace Pool

open Mailroom

variable {σ : Type} {p : Pool σ} (setup : PoolSetup σ) {s : Seat} {q : Pool σ}

theorem mailroom_disconnect (s : Seat) : (p.disconnect s).mailroom = p.mailroom := by
  unfold disconnect
  split
  · exact mailroom_setWorker_same fun _ ↦ rfl
  · rfl

theorem mailroom_startWorker (hi : p.seats[i]? = some s) : (p.startWorker setup i).mailroom =
      p.mailroom.start i (s.generation + 1) (setup.fresh p.mailroom.desks.length i) := by
  have hd := mailroom_disconnect (p := p) s
  simp only [mailroom, Mailroom.mk.injEq] at hd
  obtain ⟨hdesks, hslips, hseats, -, hlinter⟩ := hd
  simp only [startWorker, hi, replayFor, mailroom, Mailroom.start, Mailroom.replay, List.map_append,
    List.map_set, hdesks, hslips, hseats, hlinter, List.length_map]
  cases p.linter <;> rfl

theorem mailroom_start {P : Mailroom → Prop} {count : Nat} {disk : Disk}
    (hempty : P ({ disk, seats := List.replicate (max count 1) {} } : Pool σ).mailroom)
    (hstart : ∀ m i seat linter, m.seats[i]? = some seat → P m → P (m.start i (seat.2 + 1) linter)) :
    P (start setup count disk).mailroom := by
  refine List.foldlRecOn (motive := fun p : Pool σ ↦ P p.mailroom) _ _ hempty fun p hp i _ ↦ ?_
  cases hi : p.seats[i]? with
  | none =>
    simp only [startWorker, hi]
    exact hp
  | some s =>
    have hseat : p.mailroom.seats[i]? = some (s.worker, s.generation) := by simp [mailroom, hi]
    rw [mailroom_startWorker setup hi]
    exact hstart _ _ _ _ hseat hp

variable {w : WorkerId} {x : Worker σ} {id : RequestId} {request : Request} {streaming : Bool}

theorem mailroom_give (hi : p.seats[i]? = some s) : (p.give i s w x id (.analyze id request streaming)).mailroom =
      p.mailroom.deliver i s.generation w x.desk id request streaming := by
  have hseats : (p.seats.set i s.occupy).map (fun s ↦ (s.worker, s.generation)) =
      p.seats.map fun s ↦ (s.worker, s.generation) := map_set_same hi rfl
  simp only [give, mailroom, Mailroom.deliver, hseats, List.map_set, List.map_append]
  rfl

theorem mailroom_enqueue {r : Except AnalysisError Unit} (h : p.enqueue setup i id request streaming = (r, q)) :
    ∃ m, Prepared setup.fresh i p.mailroom m ∧
      ((∃ w g d, r = .ok () ∧ m.seats[i]? = some (some w, g) ∧ m.desks[w]? = some d ∧
          q.mailroom = m.deliver i g w d id request streaming) ∨
        (∃ e, r = .error e) ∧ q.mailroom = m) := by
  have hseat {p : Pool σ} {s : Seat} {w : WorkerId} (hi : p.seats[i]? = some s) (hw : s.worker = some w) :
      p.mailroom.seats[i]? = some (some w, s.generation) := by
    simp [mailroom, hi, hw]
  cases enqueued h with
  | nowhere hi => exact ⟨_, .ready _, .inr ⟨⟨_, rfl⟩, rfl⟩⟩
  | given hi hf hw hx hl =>
    exact ⟨_, .ready _, .inl ⟨_, _, _, rfl, hseat hi hw, desks_of_workers hx, mailroom_give hi⟩⟩
  | @started s s' x hi hu hi' hw hx =>
    have hold : p.mailroom.seats[i]? = some (s.worker, s.generation) := by simp [mailroom, hi]
    refine ⟨_, .start hold (.ready _), ?_⟩
    rw [← mailroom_startWorker setup hi]
    exact .inl ⟨_, _, _, rfl, hseat hi' hw, desks_of_workers hx, mailroom_give hi'⟩

section Close

variable {q : Pool σ} {now : Nat}

theorem mailroom_beginClose (h : p.beginClose = some q) : q.mailroom = p.mailroom := by
  unfold beginClose at h
  split at h <;> cases h
  rfl

theorem mailroom_graceOver (h : p.graceOver now = some q) : q.mailroom = p.mailroom := by
  unfold graceOver at h
  split at h <;> cases h
  exact mailroom_update (p := p) (f := fun s ↦ { s with state := .errored }) fun _ ↦ ⟨rfl, rfl⟩

theorem mailroom_closeStep (h : p.closeStep now = some q) : p.mailroom.Asked q.mailroom := by
  have hseats {next : Nat} {s : Seat} (hi : p.seats[next]? = some s) :
      (p.seats.set next { s with state := .closing }).map (fun s ↦ (s.worker, s.generation)) =
        p.seats.map fun s ↦ (s.worker, s.generation) := map_set_same hi rfl
  cases closes_of_closeStep h with
  | ask hc hi hf hw hx =>
    simp only [mailroom, hseats hi, List.map_set]
    exact .worker (desks_of_workers hx)
  | askVain hc hi hf hd =>
    simp only [mailroom, hseats hi]
    exact .nobody
  | skip | await | ended | finish => exact .nobody

end Close

end Pool

end AnalysisServer
