import AnalysisServer.Proofs.System.Sequential

namespace AnalysisServer

open List

namespace Desk

/-- A worker without a linter that has done nothing, and is to install this one before anything else. -/
def Awaits (L : Linter) (d : Desk) : Prop :=
  ∃ id rest, d.inbox = .analyze id (.initLinter L) false :: rest ∧ d.work = none ∧ d.linter = none ∧
    ∀ message ∈ rest, message.linter? = none

/-- A worker that waits for the linter, or has been through with it and has it or none. -/
def Settling (L : Linter) (d : Desk) : Prop :=
  d.Awaits L ∨ (∀ message ∈ d.inbox, message.linter? = none) ∧ (d.linter = some L ∨ d.linter = none)

/-- What holds of a worker that is started with the linter, and is not changed by other requests to it. -/
structure Lasts (L : Linter) (P : Desk → Prop) : Prop where
  start : ∀ i g id, P ⟨i, g, none, [.analyze id (.initLinter L) false], none⟩
  put : ∀ d message, P d → message.linter? = none → P { d with inbox := d.inbox ++ [message] }

variable {L : Linter}

theorem linter?_concat {messages : List Message} {message : Message} (h : ∀ m ∈ messages, m.linter? = none)
    (hm : message.linter? = none) : ∀ m ∈ messages ++ [message], m.linter? = none :=
  forall_mem_append.mpr ⟨h, forall_mem_singleton.mpr hm⟩

theorem Lasts.awaits : Lasts L (Awaits L) := by
  refine ⟨fun i g id ↦ ⟨id, [], rfl, rfl, rfl, nofun⟩, fun d message ⟨id, rest, hin, hw, hl, hrest⟩ hm ↦ ?_⟩
  exact ⟨id, rest ++ [message], by rw [hin]; rfl, hw, hl, linter?_concat hrest hm⟩

theorem Lasts.settling : Lasts L (Settling L) := by
  refine ⟨fun i g id ↦ .inl (awaits.start i g id), ?_⟩
  rintro d message (h | ⟨hnone, hl⟩) hm
  · exact .inl (awaits.put d message h hm)
  · exact .inr ⟨linter?_concat hnone hm, hl⟩

end Desk

namespace Mailroom

variable {m m' : Mailroom} {L : Linter} {v : WorkerId} {e : Desk} {n : Nat}

theorem Shift.settling {σ : Type} [Digest] {engine : RuleEngine σ} {said : List (RequestId × Reply)}
    (h : m.Shift engine said m') (hp : m.Plain) (hm : ∀ d, m.desks[v]? = some d → d.Settling L)
    (he : m'.desks[v]? = some e) : e.Settling L := by
  refine h.desks (P := Desk.Settling L) hp ?_ ?_ ?_ ?_ ?_ hm he
  · rintro d id linter streaming rest (⟨id', rest', hin', -, -, hrest⟩ | ⟨hnone, -⟩) hw hin
    · cases hin.symm.trans hin'
      exact .inr ⟨hrest, .inl rfl⟩
    · cases hnone _ (hin ▸ mem_cons_self)
  · rintro d message rest (⟨id', rest', hin', -, hl, hrest⟩ | ⟨hnone, hl⟩) hw hin
    · cases hin.symm.trans hin'
      exact .inr ⟨hrest, .inr hl⟩
    · exact .inr ⟨fun message h ↦ hnone message (hin ▸ .tail _ h), hl⟩
  · rintro d id request streaming rest unit (⟨id', rest', -, -, hl, -⟩ | ⟨hnone, hl⟩) hw hsome hr hin
    · rw [hl] at hsome
      cases hsome
    · exact .inr ⟨fun message h ↦ hnone message (hin ▸ .tail _ h), hl⟩
  · rintro d job (⟨id', rest', -, hw', -⟩ | h) hw
    · cases hw.symm.trans hw'
    · exact .inr h
  · rintro d (⟨id', rest', -, -, hl, -⟩ | ⟨-, hl⟩)
    · exact .inr ⟨fun _ h ↦ (nomatch h), .inr hl⟩
    · exact .inr ⟨fun _ h ↦ (nomatch h), hl⟩

def DesksFrom (m : Mailroom) (n : Nat) (P : Desk → Prop) : Prop :=
  ∀ ⦃v : WorkerId⦄ ⦃d : Desk⦄, n ≤ v → m.desks[v]? = some d → P d

variable {P : Desk → Prop}

theorem DesksFrom.prepared {fresh : WorkerId → Nat → Option Linter} {i : Nat} (h : Prepared fresh i m m')
    (hP : Desk.Lasts L P) (hfresh : ∀ w i, fresh w i = none) (hL : m.linter = some L) (hm : m.DesksFrom n P) :
    m'.DesksFrom n P := by
  induction h with
  | ready m => exact hm
  | @start m m' seat hi _ ih =>
    refine ih hL fun v d hv hd ↦ ?_
    obtain hd | ⟨-, rfl⟩ := start_cases hd
    · exact hm hv hd
    · have hreplay : m.replay = [.analyze m.nextId (.initLinter L) false] := by simp [replay, hL]
      rw [hfresh, hreplay]
      exact hP.start _ _ _

theorem DesksFrom.deliver {w : WorkerId} {i g : Nat} {d : Desk} {id : RequestId} {request : Request} {streaming : Bool}
    (hm : m.DesksFrom n P) (hP : Desk.Lasts L P) (hd : m.desks[w]? = some d) (hr : request.linter? = none) :
    (m.deliver i g w d id request streaming).DesksFrom n P := by
  intro v e hv he
  obtain ⟨rfl, rfl⟩ | ⟨-, he⟩ := deliver_cases hd he
  · exact hP.put d _ (hm hv hd) hr
  · exact hm hv he

theorem DesksFrom.visited {σ : Type} {setup : PoolSetup σ} {x : Call} (h : m.Visited setup x m')
    (hP : Desk.Lasts L P) (hfresh : ∀ w i, setup.fresh w i = none) (hl : x.request.linter? = none)
    (hL : m.linter = some L) (hm : m.DesksFrom n P) : m'.DesksFrom n P := by
  cases h with
  | send hid hd =>
    obtain ⟨m₁, w, g, d, hprep, hseat, hd, rfl⟩ := hd
    exact (hm.prepared hprep hP hfresh hL).deliver hP hd hl
  | refused hprep => exact hm.prepared hprep hP hfresh hL
  | _ => exact hm

end Mailroom

namespace System

open Mailroom

section

variable {σ : Type} [Digest] {setup : SystemSetup σ} {s s' : System σ}

theorem Sequential.trans {t : System σ} (h : Sequential setup s t) (h' : Sequential setup t s') :
    Sequential setup s s' := by
  induction h' with
  | refl => exact h
  | begin _ hover hx hr ih => exact ih.begin hover hx hr
  | step _ he hstep ih => exact ih.step he hstep

def NoneSince (s : System σ) (c : Nat) : Prop :=
  ∀ ⦃c' : Nat⦄ ⦃y : Call⦄, c < c' → s.calls[c']? = some y → y.request.linter? = none

structure LinterCall (s : System σ) (c : Nat) (L : Linter) (outcome : Except AnalysisError Response) :
    Prop where
  call : ∃ z, s.calls[c]? = some z ∧ z.request = .initLinter L ∧ z.stage = .finished outcome
  since : s.NoneSince c

variable {c : Nat} {L : Linter} {outcome : Except AnalysisError Response}

omit [Digest] in
theorem LinterCall.reached (h : s.LinterCall c L outcome) (hs : s.Steady) :
    s.pool.mailroom.Reached L (.finished outcome) := by
  obtain ⟨z, hz, hL, hend⟩ := h.call
  rw [← hend]
  exact hs.reached ⟨hz, hL, fun hlt hy ↦ h.since hlt hy⟩

omit [Digest] in
theorem LinterCall.linter?_of_open (h : s.LinterCall c L outcome) (hs : s.Steady) {c' : Nat} {x : Call}
    (hx : s.calls[c']? = some x) (hopen : x.isOpen) : x.request.linter? = none := by
  obtain ⟨z, hz, -, hend⟩ := h.call
  have hlast := hs.current hx hopen
  have hlt := lt_of_getElem? hz
  refine h.since (Nat.lt_of_le_of_ne (by omega) ?_) hx
  rintro rfl
  cases hz.symm.trans hx
  rw [Call.isOpen, hend] at hopen
  cases hopen

section Desks

variable {n : Nat} {P : Desk → Prop} {e : Event}

theorem desks_step (hP : Desk.Lasts L P) (hfresh : ∀ w i, setup.fresh w i = none) (hs : s.Steady)
    (hl : s.LinterCall c L outcome) (hm : s.pool.mailroom.DesksFrom n P)
    (hwork : ∀ {w q}, s.pool.workerStep setup.engine w = some q → q.mailroom.DesksFrom n P) (he : e.IsOrdinary)
    (h : s.step setup e = some s') : s'.pool.mailroom.DesksFrom n P := by
  cases proceeds_of_step h with
  | work hq => exact hwork hq
  | monitor hq => exact (Pool.mailroom_monitorStep hq).symm ▸ hm
  | replay hq => exact (Pool.mailroom_replayStep hq).symm ▸ hm
  | drain hq => exact (Pool.mailroom_drainStep hq).symm ▸ hm
  | call hx hstep hb =>
    rw [hb.pool]
    exact hm.visited (visited_mail hstep.visited) hP hfresh (hl.linter?_of_open hs hx hstep.isOpen) (hl.reached hs).1
  | pass => exact hm
  | _ => cases he

theorem settling_step (hfresh : ∀ w i, setup.fresh w i = none) (hs : s.Steady)
    (hl : s.LinterCall c L outcome) (hm : s.pool.mailroom.DesksFrom n (Desk.Settling L)) (he : e.IsOrdinary)
    (h : s.step setup e = some s') : s'.pool.mailroom.DesksFrom n (Desk.Settling L) :=
  desks_step .settling hfresh hs hl hm
    (fun hq _ _ hv hd ↦ (Pool.workerStep_shift hq).settling hs.plain (fun _ hd ↦ hm hv hd) hd) he h

omit [Digest] in
theorem desksFrom_length (s : System σ) : s.pool.mailroom.DesksFrom s.pool.workers.length P := by
  intro v d hv hd
  obtain ⟨x, hx, -⟩ := Pool.desks_eq_some.mp hd
  exact absurd (lt_of_getElem? hx) (Nat.not_lt.mpr hv)

theorem awaits_step (hfresh : ∀ w i, setup.fresh w i = none) (hs : s.Steady)
    (hl : s.LinterCall c L outcome) (he : e.IsOrdinary) (h : s.step setup e = some s') :
    s'.pool.mailroom.DesksFrom s.pool.workers.length (Desk.Awaits L) := by
  refine desks_step .awaits hfresh hs hl s.desksFrom_length (fun hq v d hv hd ↦ ?_) he h
  obtain ⟨d', hd', -⟩ := (Pool.workerStep_shift hq).pending hd
  exact (s.desksFrom_length (P := fun _ ↦ False) hv hd').elim

end Desks

variable {z : Call}

theorem settling_run (hfresh : ∀ w i, setup.fresh w i = none) (hs : s.Steady)
    (h : Sequential setup s s') (hz : s.calls[c]? = some z)
    (hL : z.request = .initLinter L) (hend : z.stage = .finished outcome) (hsince : s'.NoneSince c) :
    s.NoneSince c ∧ s'.LinterCall c L outcome ∧
      s'.pool.mailroom.DesksFrom s.pool.workers.length (Desk.Settling L) := by
  have hclosed : z.isOpen = false := by simp only [Call.isOpen, hend]
  suffices hcall : s.NoneSince c ∧ s'.calls[c]? = some z ∧
      s'.pool.mailroom.DesksFrom s.pool.workers.length (Desk.Settling L) from
    ⟨hcall.1, ⟨⟨z, hcall.2.1, hL, hend⟩, hsince⟩, hcall.2.2⟩
  induction h with
  | refl =>
    exact ⟨hsince, hz, s.desksFrom_length⟩
  | @begin t x _ _ _ _ ih =>
    have hold {c y} (h : t.calls[c]? = some y) : (t.calls ++ [x])[c]? = some y :=
      (List.getElem?_append_left (lt_of_getElem? h)).trans h
    obtain ⟨hn, ht, hm⟩ := ih fun c' y hlt hy ↦ hsince hlt (hold hy)
    exact ⟨hn, hold ht, hm⟩
  | @step t u e hrun he hstep ih =>
    have hsince' : t.NoneSince c := fun c' y hlt hy ↦ by
      obtain ⟨y', hy', hsame, -⟩ := step_call hstep hy
      exact hsame.request ▸ hsince hlt hy'
    obtain ⟨hn, ht, hm⟩ := ih hsince'
    obtain ⟨y, hy, -, heq⟩ := step_call hstep ht
    have hlast : t.LinterCall c L outcome := ⟨⟨z, ht, hL, hend⟩, hsince'⟩
    exact ⟨hn, heq hclosed ▸ hy, settling_step hfresh (hs.run hfresh hrun) hlast hm he hstep⟩

/-- A worker in its seat goes down with the file that it works on. -/
structure Crash (setup : SystemSetup σ) (s : System σ) (w : WorkerId) (x : Worker σ) (s' : System σ) :
    Prop where
  worker : s.pool.workers[w]? = some x
  seat : ∃ seat, s.pool.seats[x.seat]? = some seat ∧ seat.worker = some w
  serving : x.phase = .serving
  work : ∃ job, x.work = some job ∧ Session.step setup.engine job.task ⟨x.session, s.pool.disk⟩ = .error .crashed
  step : s.step setup (.work w) = some s'

theorem Crash.linter {x : Worker σ} (h : Crash setup s w x s') (hs : s.Steady) (hl : s.LinterCall c L outcome) :
    x.session.linter.isSome ∧ ((∃ response, outcome = .ok response) → x.session.linter = some L) := by
  have hd := Pool.desks_of_workers h.worker
  obtain ⟨job, hjob, -⟩ := h.work
  have hsome : x.session.linter.isSome := ((hs.plain hd).work hjob).2
  refine ⟨hsome, fun hok ↦ ?_⟩
  obtain ⟨seat, hseat, hw⟩ := h.seat
  have hseat' : s.pool.mailroom.seats[x.seat]? = some (some w, seat.generation) := by
    simp [Pool.mailroom, hseat, hw]
  obtain hL | hnone := ((hl.reached hs).2 hok x.seat hseat' hd).linter
  · exact hL
  · rw [show x.session.linter = none from hnone] at hsome
    cases hsome

theorem step_initLinter (hs : s.Steady) {v : WorkerId} {y : Worker σ} {id : RequestId}
    {streaming : Bool} {rest : List Message} (hy : s.pool.workers[v]? = some y)
    (hserving : y.phase = .serving) (hwork : y.work = none)
    (hin : y.inbox = .analyze id (.initLinter L) streaming :: rest) :
    ∃ s' y' outcome, s.step setup (.work v) = some s' ∧ s'.pool.workers[v]? = some y' ∧
      (∃ t ∈ s'.pool.tickets, t.id = id ∧ t.written = [.final outcome]) ∧
      ((∃ response, outcome = .ok response) ∧ y'.session.linter = some L ∨
        (∃ e, outcome = .error e) ∧ y'.session.linter = y.session.linter) := by
  have hd := Pool.desks_of_workers hy
  have hpending := Desk.pending_of_inbox (d := y.desk) hwork hin
  obtain ⟨t, ht, hid, -⟩ := hs.numbered.pending_slip hd (hpending ▸ mem_cons_self)
  have hwaiting : t.id ∈ y.desk.waiting := by
    simp [Desk.waiting, Worker.desk, hin, hid, Message.id?]
  have hnil := hs.numbered.waiting_unwritten hd ht hwaiting
  have hdone {outcome space} (hb : Session.begin setup.engine (.initLinter L) streaming ⟨y.session, s.pool.disk⟩ =
        (.done outcome, space)) :
      ∃ s' y', s.step setup (.work v) = some s' ∧ s'.pool.workers[v]? = some y' ∧
        (∃ t ∈ s'.pool.tickets, t.id = id ∧ t.written = [.final outcome]) ∧
        y'.session.linter = space.session.linter := by
    obtain ⟨q, hq⟩ : ∃ q, s.pool.workerStep setup.engine v = some q := by
      simp [Pool.workerStep, hy, hserving, hwork, Pool.takeMessage, hin]
    have hm : q.mailroom = (s.pool.mailroom.setDesk v ⟨y.seat, y.generation, space.session.linter, rest, none⟩).say id
          [.final outcome] := by
      obtain ⟨x, hx, said, done, z, disk, -, ha, rfl⟩ := Pool.worked_of_workerStep hq
      cases hy.symm.trans hx
      cases ha with
      | begin hp hw hin' hb' =>
        cases hin.symm.trans hin'
        cases hb.symm.trans hb'
        exact Pool.mailroom_worked _ _ _ [_] _
      | report hp | fade hp | drop hp | vanish hp => cases hserving.symm.trans hp
      | step hp hw | fail hp hw | crash hp hw => cases hwork.symm.trans hw
      | quit hp hw hin' | close hp hw hin' => cases hin.symm.trans hin'
    have hdesk : q.mailroom.desks[v]? = some ⟨y.seat, y.generation, space.session.linter, rest, none⟩ := by
      rw [hm]
      exact desks_setDesk_self (m := s.pool.mailroom) hd
    have hslip : t.add id [.final outcome] ∈ q.mailroom.slips := by
      rw [hm]
      exact mem_slips_say.mpr ⟨t, ht, rfl⟩
    obtain ⟨y', hy', hdesk⟩ := Pool.desks_eq_some.mp hdesk
    obtain ⟨u, hu, hslip⟩ := mem_map.mp hslip
    refine ⟨{ s with pool := q }, y', ?_, hy', ⟨u, hu, ?_, ?_⟩, congrArg Desk.linter hdesk⟩
    · simp only [System.step, hq, Option.map_some]
    · exact (congrArg Slip.id hslip).trans hid
    · refine (congrArg Slip.written hslip).trans ?_
      simp [Slip.add, hid, hnil]
  obtain ⟨space, hb, hl⟩ | ⟨e, space, hb, hl⟩ :=
    Session.begin_initLinter setup.engine L streaming ⟨y.session, s.pool.disk⟩
  · obtain ⟨s', y', hstep, hy', ht, hl'⟩ := hdone hb
    exact ⟨s', y', _, hstep, hy', ht, .inl ⟨⟨_, rfl⟩, hl'.trans hl⟩⟩
  · obtain ⟨s', y', hstep, hy', ht, hl'⟩ := hdone hb
    exact ⟨s', y', _, hstep, hy', ht, .inr ⟨⟨_, rfl⟩, hl'.trans hl⟩⟩

inductive Act where
  | call (request : Request)
  | event (e : Event)

def Act.IsPlain : Act → Prop
  | .call request => request.IsPlain
  | .event e => e.IsOrdinary

def play (setup : SystemSetup σ) : List Act → System σ → Option (System σ)
  | [], s => some s
  | .call request :: rest, s =>
    if s.calls.all fun y ↦ !y.isOpen then play setup rest (s.begin { request }).2 else none
  | .event e :: rest, s => (s.step setup e).bind (play setup rest)

theorem Sequential.play {acts : List Act} {t u : System σ} (h : Sequential setup s t)
    (hacts : ∀ a ∈ acts, a.IsPlain) (hplay : play setup acts t = some u) : Sequential setup s u := by
  induction acts generalizing t with
  | nil =>
    cases hplay
    exact h
  | cons a rest ih =>
    have ha := hacts a (.head _)
    have hrest : ∀ a ∈ rest, a.IsPlain := fun a h ↦ hacts a (.tail _ h)
    cases a with
    | call request =>
      simp only [System.play] at hplay
      split at hplay
      · rename_i hover
        refine ih (h.begin (x := { request }) (fun y hy ↦ ?_) rfl ha) hrest hplay
        simpa using all_eq_true.mp hover y hy
      · cases hplay
    | event e =>
      obtain ⟨t', ht', hplay⟩ := Option.bind_eq_some_iff.mp hplay
      exact ih (h.step ha ht') hrest hplay

/-- The crash of the first of all workers in a history, and the first step of the second one. -/
structure Scene (σ : Type) where
  (before after late settled : System σ)
  (crashed started changed : Worker σ)

structure Scene.IsOf (setup : SystemSetup σ) (scene : Scene σ) : Prop where
  history : Sequential setup (opened setup 1 {} []) scene.before
  crash : Crash setup scene.before 0 scene.crashed scene.after
  run : Sequential setup scene.after scene.late
  new : scene.before.pool.workers.length ≤ 1
  started : scene.late.pool.workers[1]? = some scene.started
  step : scene.late.step setup (.work 1) = some scene.settled
  changed : scene.settled.pool.workers[1]? = some scene.changed

/-- Goes through a history, the step in which a worker crashes, what follows, and the step in which
another worker takes a message. -/
def tell (setup : SystemSetup σ) (history next : List Act) : Option (Scene σ) := do
  let before ← play setup history (opened setup 1 {} [])
  let crashed ← before.pool.workers[0]?
  let seat ← before.pool.seats[crashed.seat]?
  let job ← crashed.work
  match Session.step setup.engine job.task ⟨crashed.session, before.pool.disk⟩ with
  | .error .crashed =>
    let after ← before.step setup (.work 0)
    let late ← play setup next after
    let started ← late.pool.workers[1]?
    let settled ← late.step setup (.work 1)
    let changed ← settled.pool.workers[1]?
    if crashed.phase = .serving ∧ seat.worker = some 0 ∧ before.pool.workers.length ≤ 1 then
      some { before, after, late, settled, crashed, started, changed }
    else none
  | _ => none

theorem Scene.isOf {history next : List Act} {scene : Scene σ} (hhistory : ∀ a ∈ history, a.IsPlain)
    (hnext : ∀ a ∈ next, a.IsPlain) (h : tell setup history next = some scene) :
    scene.IsOf setup := by
  simp only [tell, Option.bind_eq_bind, Option.bind_eq_some_iff] at h
  obtain ⟨before, hbefore, crashed, hcrashed, seat, hseat, job, hjob, h⟩ := h
  split at h
  · rename_i hcrash
    simp only [Option.bind_eq_some_iff] at h
    obtain ⟨after, hafter, late, hlate, started, hstarted, settled, hsettled, changed, hchanged, h⟩ := h
    split at h
    · rename_i hif
      cases h
      exact ⟨Sequential.refl.play hhistory hbefore,
        ⟨hcrashed, ⟨seat, hseat, hif.2.1⟩, hif.1, ⟨job, hjob, hcrash⟩, hafter⟩,
        Sequential.refl.play hnext hlate, hif.2.2, hstarted, hsettled, hchanged⟩
    · cases h
  · cases h

theorem exists_scene (setup : SystemSetup σ) (history next : List Act) {p : Scene σ → Bool}
    (hhistory : ∀ a ∈ history, a.IsPlain) (hnext : ∀ a ∈ next, a.IsPlain)
    (h : (tell setup history next).any p) : ∃ scene : Scene σ, scene.IsOf setup ∧ p scene := by
  cases hscene : tell setup history next with
  | none => simp [hscene] at h
  | some scene => exact ⟨scene, Scene.isOf hhistory hnext hscene, by simpa [hscene] using h⟩

end

def events (es : List Event) : List Act :=
  es.map .event

def linterActs (c : Nat) (L : Linter) (turns : List Event) : List Act :=
  .call (.initLinter L) :: events (List.replicate 5 (Event.call c) ++ turns ++ List.replicate 2 (Event.call c))

def fileActs (c : Nat) (w : WorkerId) : List Act :=
  .call styleRequest :: events [.call c, .call c, .call c, .call c, .work w]

def retryActs (c : Nat) : List Act :=
  .event (.call c) :: fileActs (c + 1) 1

theorem plain_events {es : List Event} (h : ∀ e ∈ es, e.IsOrdinary) : ∀ a ∈ events es, a.IsPlain := by
  intro a ha
  obtain ⟨e, he, rfl⟩ := mem_map.mp ha
  exact h e he

theorem plain_linterActs (c : Nat) (L : Linter) {turns : List Event} (h : ∀ e ∈ turns, e.IsOrdinary) :
    ∀ a ∈ linterActs c L turns, a.IsPlain := by
  refine forall_mem_cons.mpr ⟨.inl ⟨L, rfl⟩, plain_events fun e he ↦ ?_⟩
  simp only [mem_append, mem_replicate] at he
  obtain (⟨-, rfl⟩ | he) | ⟨-, rfl⟩ := he
  · trivial
  · exact h e he
  · trivial

theorem plain_fileActs (c : Nat) (w : WorkerId) : ∀ a ∈ fileActs c w, a.IsPlain :=
  forall_mem_cons.mpr ⟨.inr ⟨_, _, rfl⟩, plain_events (by simp [Event.IsOrdinary])⟩

theorem plain_retryActs (c : Nat) : ∀ a ∈ retryActs c, a.IsPlain :=
  forall_mem_cons.mpr ⟨trivial, plain_fileActs (c + 1) 1⟩

def isInstalled (z : Call) : Bool :=
  match z.request, z.stage with
  | .initLinter _, .finished (.ok _) => true
  | _, _ => false

def Scene.keepsLinter (scene : Scene Bool) : Bool :=
  scene.before.calls[0]?.any isInstalled &&
    (scene.late.calls.drop 1).all (·.request.linter?.isNone) && scene.started.phase = .serving &&
    scene.started.inbox.any (·.linter?.isSome) && scene.changed.session.linter.isSome

theorem exists_of_isInstalled (h : isInstalled z) :
    ∃ L response, z.request = .initLinter L ∧ z.stage = .finished (.ok response) := by
  unfold isInstalled at h
  split at h
  · rename_i L response hr hs
    exact ⟨L, response, hr, hs⟩
  · cases h

theorem noneSince_of_drop {s : System Bool} {c : Nat} (h : (s.calls.drop (c + 1)).all (·.request.linter?.isNone)) :
    s.NoneSince c := by
  intro c' y hlt hy
  have hmem : y ∈ s.calls.drop (c + 1) := by
    refine mem_of_getElem? (i := c' - (c + 1)) ?_
    rwa [List.getElem?_drop, Nat.add_sub_cancel' hlt]
  simpa using all_eq_true.mp h y hmem

theorem eq_of_linter? {message : Message} (h : message.linter?.isSome) :
    ∃ id M streaming, message = .analyze id (.initLinter M) streaming := by
  cases message with
  | analyze id request streaming =>
    cases request with
    | initLinter M => exact ⟨id, M, streaming, rfl⟩
    | _ => cases h
  | close => cases h

def Scene.losesLinter (scene : Scene Bool) : Bool :=
  scene.started.inbox.any (·.linter?.isSome) && scene.crashed.session.linter.isSome &&
    scene.changed.session.linter.isNone

end System

end AnalysisServer
