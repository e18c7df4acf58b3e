import AnalysisServer.Pool.Work
import AnalysisServer.Proofs.Lists
import AnalysisServer.Proofs.Session.Serving

namespace AnalysisServer

variable {σ : Type}

/-- What a worker says in its next step, under the number of the request at hand. -/
def Pool.utters [Digest] {σ : Type} (engine : RuleEngine σ) (p : Pool σ) (w : WorkerId) :
    List (RequestId × Reply) :=
  match p.workers[w]? with
  | none => []
  | some x =>
    match x.phase, x.work, x.inbox with
    | .serving, some job, _ =>
      match Session.step engine job.task ⟨x.session, p.disk⟩ with
      | .ok (a, _) => a.replies.map (job.id, ·)
      | .error (.failed e) => [(job.id, .final (.error e))]
      | .error _ => []
    | .serving, none, .analyze id request streaming :: _ =>
      (Session.begin engine request streaming ⟨x.session, p.disk⟩).1.final.map (id, ·)
    | _, _, _ => []

/-- The tickets after something was said and some requests were dealt with. -/
def Pool.told (p : Pool σ) (said : List (RequestId × Reply)) (done : List RequestId) : Pool σ :=
  done.foldl Pool.complete (said.foldl (fun p r ↦ p.write r.1 r.2) p)

theorem Pool.told_eq (p : Pool σ) (said : List (RequestId × Reply)) (done : List RequestId) :
    p.told said done = { p with tickets := (p.told said done).tickets } := by
  refine List.foldlRecOn (motive := fun q : Pool σ ↦ q = { p with tickets := q.tickets }) _ _ ?_ fun q hq id _ ↦ ?_
  · refine List.foldlRecOn (motive := fun q : Pool σ ↦ q = { p with tickets := q.tickets }) _ _ rfl fun q hq r _ ↦ ?_
    rw [hq]
    rfl
  · rw [hq]
    rfl

/-- A step of a worker: what it says, the requests it is through with, and what becomes of it and of the disk. -/
inductive Worker.Acts [Digest] (engine : RuleEngine σ) (disk : Disk) (x : Worker σ) :
    List (RequestId × Reply) → List RequestId → Worker σ → Disk → Prop
  | report (hp : x.phase = .starting) :
      Acts engine disk x [] [] { x with phase := .serving, notes := x.notes ++ [.online] } disk
  | begin {id request streaming rest progress space} (hp : x.phase = .serving) (hw : x.work = none)
      (hin : x.inbox = .analyze id request streaming :: rest)
      (hb : Session.begin engine request streaming ⟨x.session, disk⟩ = (progress, space)) :
      Acts engine disk x (progress.final.map (id, ·)) (progress.final.map fun _ ↦ id)
        { x with inbox := rest, session := space.session, work := progress.work? id } space.disk
  | step {job a space} (hp : x.phase = .serving) (hw : x.work = some job)
      (hs : Session.step engine job.task ⟨x.session, disk⟩ = .ok (a, space)) :
      Acts engine disk x (a.replies.map (job.id, ·)) (a.progress.final.map fun _ ↦ job.id)
        { x with session := space.session, work := a.progress.work? job.id } space.disk
  | fail {job e} (hp : x.phase = .serving) (hw : x.work = some job)
      (hs : Session.step engine job.task ⟨x.session, disk⟩ = .error (.failed e)) :
      Acts engine disk x [(job.id, .final (.error e))] [job.id] { x with work := none } disk
  | crash {job} (hp : x.phase = .serving) (hw : x.work = some job)
      (hs : Session.step engine job.task ⟨x.session, disk⟩ = .error .crashed) :
      Acts engine disk x [] [job.id] { x with phase := .leaving, work := none } disk
  | quit (hp : x.phase = .serving) (hw : x.work = none) (hin : x.inbox = []) (hc : x.connected = false) :
      Acts engine disk x [] [] { x with phase := .leaving, notes := x.notes ++ [.exited] } disk
  | close {rest} (hp : x.phase = .serving) (hw : x.work = none) (hin : x.inbox = .close :: rest) :
      Acts engine disk x [] [] { x with
          inbox := rest
          session := (Session.close ⟨x.session, disk⟩).session
          phase := .leaving
          notes := x.notes ++ [.exited] } (Session.close ⟨x.session, disk⟩).disk
  | fade (hp : x.phase = .leaving) : Acts engine disk x [] [] { x with phase := .silent } disk
  | drop (hp : x.phase = .silent) :
      Acts engine disk x [] (x.inbox.filterMap Message.id?) { x with inbox := [], phase := .deaf } disk
  | vanish (hp : x.phase = .deaf) :
      Acts engine disk x [] [] { x with phase := .gone } (Session.drop ⟨x.session, disk⟩)

namespace Pool

variable {p q : Pool σ} {w : WorkerId} {x : Worker σ} [Digest] {engine : RuleEngine σ}

/-- What a step of a worker makes of the pool. -/
def Worked (engine : RuleEngine σ) (p : Pool σ) (w : WorkerId) (x : Worker σ) (q : Pool σ) : Prop :=
  ∃ said done y disk, p.utters engine w = said ∧ x.Acts engine p.disk said done y disk ∧
    q = { p with tickets := (p.told said done).tickets, workers := p.workers.set w y, disk }

section

variable (hx : p.workers[w]? = some x)

include hx

theorem worked_workOn {job : Work} (hp : x.phase = .serving)
    (hw : x.work = some job) (h : p.workOn engine w x job = some q) : Worked engine p w x q := by
  unfold workOn at h
  split at h
  · cases h
  · rename_i hs
    cases h
    refine ⟨_, _, _, _, by simp only [utters, hx, hp, hw, hs], .crash hp hw hs, ?_⟩
    simp only [leave, setWorker, complete, setTicket, modify_eq_set hx, List.append_nil]
    rfl
  · rename_i e hs
    cases h
    refine ⟨_, _, _, _, by simp only [utters, hx, hp, hw, hs], .fail hp hw hs, ?_⟩
    simp only [proceed, setWorker, write, complete, setTicket, modify_eq_set hx]
    rfl
  · rename_i a space hs
    cases h
    refine ⟨_, _, _, _, by simp only [utters, hx, hp, hw, hs], .step hp hw hs, ?_⟩
    obtain ⟨delivered, progress⟩ := a
    cases delivered <;> cases progress <;>
      simp only [proceed, putWorkspace, setWorker, write, complete, setTicket, modify_eq_set hx, modify_set_of hx] <;>
      rfl

theorem worked_takeMessage (hp : x.phase = .serving)
    (hw : x.work = none) (h : p.takeMessage engine w x = some q) : Worked engine p w x q := by
  cases hin : x.inbox with
  | nil =>
    simp only [takeMessage, hin] at h
    split at h
    · cases h
    · rename_i hc
      cases h
      refine ⟨_, _, _, _, by simp only [utters, hx, hp, hw, hin], .quit hp hw hin (Bool.eq_false_iff.mpr hc), ?_⟩
      simp only [leave, setWorker, modify_eq_set hx, hw]
      rfl
  | cons message rest =>
    simp only [takeMessage, hin] at h
    cases message with
    | analyze id request streaming =>
      rcases hb : Session.begin engine request streaming ⟨x.session, p.disk⟩ with ⟨progress, space⟩
      cases h
      refine ⟨_, _, _, _, by simp only [utters, hx, hp, hw, hin, hb], .begin hp hw hin hb, ?_⟩
      simp only [setWorker, hb]
      cases progress <;>
        simp only [proceed, putWorkspace, setWorker, write, complete, setTicket, modify_eq_set hx, modify_set_of hx] <;>
        rfl
    | close =>
      cases h
      refine ⟨_, _, _, _, by simp only [utters, hx, hp, hw, hin], .close hp hw hin, ?_⟩
      simp only [leave, putWorkspace, setWorker, modify_eq_set hx, modify_set_of hx, hw]
      rfl

end

omit [Digest] in
theorem dropInbox_eq (hx : p.workers[w]? = some x) : p.dropInbox w x = { p with
    tickets := (p.told [] (x.inbox.filterMap Message.id?)).tickets
    workers := p.workers.set w { x with inbox := [] } } := by
  have hcomplete (ids : List RequestId) (p : Pool σ) (workers : List (Worker σ)) :
      ids.foldl complete { p with workers } = { p with tickets := (ids.foldl complete p).tickets, workers } := by
    induction ids generalizing p with
    | nil => rfl
    | cons id ids ih => exact ih (p.complete id)
  rw [← modify_eq_set hx fun x ↦ { x with inbox := [] }]
  exact hcomplete _ p _

theorem worked_of_workerStep (h : p.workerStep engine w = some q) :
    ∃ x, p.workers[w]? = some x ∧ Worked engine p w x q := by
  simp only [workerStep, Option.bind_eq_bind, Option.bind_eq_some_iff] at h
  obtain ⟨x, hx, h⟩ := h
  refine ⟨x, hx, ?_⟩
  cases hp : x.phase with
  | starting =>
    simp only [hp] at h
    cases h
    refine ⟨_, _, _, _, by simp only [utters, hx, hp], .report hp, ?_⟩
    simp only [setWorker, modify_eq_set hx]
    rfl
  | serving =>
    cases hw : x.work with
    | some job =>
      simp only [hp, hw] at h
      exact worked_workOn hx hp hw h
    | none =>
      simp only [hp, hw] at h
      exact worked_takeMessage hx hp hw h
  | leaving =>
    simp only [hp] at h
    cases h
    refine ⟨_, _, _, _, by simp only [utters, hx, hp], .fade hp, ?_⟩
    simp only [setWorker, modify_eq_set hx]
    rfl
  | silent =>
    simp only [hp] at h
    cases h
    refine ⟨_, _, _, _, by simp only [utters, hx, hp], .drop hp, ?_⟩
    simp only [dropInbox_eq hx, setWorker, modify_set_of hx]
  | deaf =>
    simp only [hp] at h
    cases h
    refine ⟨_, _, _, _, by simp only [utters, hx, hp], .vanish hp, ?_⟩
    simp only [setWorker, modify_eq_set hx]
    rfl
  | gone => simp [hp] at h

end Pool

end AnalysisServer
