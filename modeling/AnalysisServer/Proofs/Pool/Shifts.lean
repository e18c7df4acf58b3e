import AnalysisServer.Proofs.Pool.Acts
import AnalysisServer.Proofs.Pool.Mailroom

namespace AnalysisServer

namespace Mailroom

inductive Shift [Digest] {σ : Type} (engine : RuleEngine σ) (m : Mailroom) :
    List (RequestId × Reply) → Mailroom → Prop
  | stay : Shift engine m [] m
  | begin {w d id request streaming rest progress space space'} (hd : m.desks[w]? = some d) (hw : d.work = none)
      (hin : d.inbox = .analyze id request streaming :: rest) (hl : space.session.linter = d.linter)
      (hb : Session.begin engine request streaming space = (progress, space')) :
      Shift engine m (progress.final.map (id, ·)) ((m.setDesk w { d with
            inbox := rest, linter := space'.session.linter, work := progress.work? id }).say
          id progress.final)
  | step {w d job a space space'}
      (hd : m.desks[w]? = some d) (hw : d.work = some job) (hl : space.session.linter = d.linter)
      (hs : Session.step engine job.task space = .ok (a, space')) :
      Shift engine m (a.replies.map (job.id, ·))
        ((m.setDesk w { d with linter := space'.session.linter, work := a.progress.work? job.id }).say
          job.id a.replies)
  | fail {w d job e space} (hd : m.desks[w]? = some d) (hw : d.work = some job)
      (hs : Session.step engine job.task space = .error (.failed e)) :
      Shift engine m [(job.id, .final (.error e))]
        ((m.setDesk w { d with work := none }).say job.id [.final (.error e)])
  | crash {w d job} (hd : m.desks[w]? = some d)
      (hw : d.work = some job) : Shift engine m [] (m.setDesk w { d with work := none })
  | close {w d rest} (hd : m.desks[w]? = some d) (hw : d.work = none) (hin : d.inbox = .close :: rest) :
      Shift engine m [] (m.setDesk w { d with inbox := rest })
  | drop {w d} (hd : m.desks[w]? = some d) : Shift engine m [] (m.setDesk w { d with inbox := [] })

theorem Shift.of_eq [Digest] {σ : Type} {engine : RuleEngine σ} {m m' : Mailroom} (h : m' = m) :
    Shift engine m [] m' :=
  h ▸ .stay

variable {id : RequestId} {m : Mailroom} {t : Slip}

theorem mem_slips_say {rs : List Reply} : t ∈ (m.say id rs).slips ↔ ∃ u ∈ m.slips, u.add id rs = t :=
  List.mem_map

theorem add_self (h : t.id = id) (rs : List Reply) : (t.add id rs).written = t.written ++ rs := by
  simp [Slip.add, h]

theorem add_of_ne (h : t.id ≠ id) (rs : List Reply) : t.add id rs = t := by
  simp [Slip.add, h]

@[simp] theorem say_nil (m : Mailroom) (id : RequestId) : m.say id [] = m := by
  have hadd : Slip.add id [] = fun t ↦ t := by
    funext t
    simp [Slip.add]
  simp [say, hadd]

@[simp] theorem say_say (m : Mailroom) (id : RequestId) (rs rs' : List Reply) :
    (m.say id rs).say id rs' = m.say id (rs ++ rs') := by
  simp only [say, List.map_map]
  congr 1
  refine List.map_congr_left fun t _ ↦ ?_
  by_cases h : t.id = id <;> simp [Slip.add, h]

theorem setDesk_self {w : WorkerId} {d : Desk} (h : m.desks[w]? = some d) : m.setDesk w d = m := by
  obtain ⟨hlt, rfl⟩ := List.getElem?_eq_some_iff.mp h
  simp [setDesk]

end Mailroom

namespace Pool

open Mailroom

variable {σ : Type} {p q : Pool σ} {w : WorkerId} {x : Worker σ}

section

variable (h : p.workers[w]? = some x)

include h

theorem desks_of_workers : p.mailroom.desks[w]? = some x.desk :=
  desks_eq_some.mpr ⟨x, h, rfl⟩

theorem workers_setWorker (f : Worker σ → Worker σ) : (p.setWorker w f).workers[w]? = some (f x) := by
  simp [setWorker, h]

end

variable [Digest] {engine : RuleEngine σ}

omit [Digest] in
theorem mailroom_told (p : Pool σ) (id : RequestId) (rs : List Reply) (done : List RequestId) :
    (p.told (rs.map (id, ·)) done).mailroom = p.mailroom.say id rs := by
  rw [told, foldl_same mailroom fun _ id ↦ mailroom_complete id]
  induction rs generalizing p with
  | nil => exact (say_nil _ _).symm
  | cons r rs ih =>
    rw [List.map_cons, List.foldl_cons, ih, mailroom_write, say_say]
    rfl

omit [Digest] in
theorem mailroom_worked (y : Worker σ) (disk : Disk) (id : RequestId) (rs : List Reply) (done : List RequestId) :
    { p with tickets := (p.told (rs.map (id, ·)) done).tickets, workers := p.workers.set w y, disk }.mailroom =
      (p.mailroom.setDesk w y.desk).say id rs := by
  have hslips : (p.told (rs.map (id, ·)) done).tickets.map Ticket.slip = (p.mailroom.say id rs).slips :=
    congrArg Mailroom.slips (mailroom_told p id rs done)
  simp only [mailroom, hslips, List.map_set]
  rfl

theorem workerStep_shift (h : p.workerStep engine w = some q) :
    p.mailroom.Shift engine (p.utters engine w) q.mailroom := by
  obtain ⟨x, hx, said, done, y, disk, rfl, ha, rfl⟩ := worked_of_workerStep h
  have hd := desks_of_workers hx
  have hquiet : { p with tickets := (p.told [] done).tickets, workers := p.workers.set w y, disk }.mailroom =
      p.mailroom.setDesk w y.desk := (mailroom_worked y disk 0 [] done).trans (say_nil _ _)
  generalize p.utters engine w = said at ha ⊢
  cases ha with
  | begin hp hw hin hb =>
    rw [mailroom_worked]
    exact .begin hd hw hin rfl hb
  | step hp hw hs =>
    rw [mailroom_worked]
    exact .step hd hw rfl hs
  | fail hp hw hs => exact mailroom_worked _ _ _ [_] _ ▸ .fail hd hw hs
  | crash hp hw hs => exact hquiet ▸ .crash hd hw
  | close hp hw hin => exact hquiet ▸ .close hd hw hin
  | drop hp => exact hquiet ▸ .drop hd
  | report | quit | fade | vanish => exact .of_eq (hquiet.trans (setDesk_self hd))

end Pool

end AnalysisServer
