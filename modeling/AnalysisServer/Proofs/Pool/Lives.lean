import AnalysisServer.Proofs.Pool.Reach
import AnalysisServer.Proofs.Pool.Staff
import AnalysisServer.Proofs.Pool.Tickets

/-!
The lives of the workers of a pool: who is in which seat, what the pool takes the state of the seat to be, and how far
each worker has come on its way out.
-/

namespace AnalysisServer

open List

namespace WorkerState

def Shifts (a b : WorkerState) : Prop :=
  b = a ∨ ((a.isFinal = false ∧ a ≠ .closing) ∧ (b = .errored ∨ (b.isFinal = false ∧ b ≠ .closing)))

instance (a b : WorkerState) : Decidable (a.Shifts b) :=
  inferInstanceAs (Decidable (_ ∨ _))

theorem Shifts.trans {a b c : WorkerState} (h : a.Shifts b) (h' : b.Shifts c) : a.Shifts c := by
  obtain rfl | ⟨ha, hb⟩ := h
  · exact h'
  · obtain rfl | ⟨-, hc⟩ := h'
    · exact .inr ⟨ha, hb⟩
    · exact .inr ⟨ha, hc⟩

theorem Shifts.eq_of_isFinal {a b : WorkerState} (h : a.Shifts b) (ha : a.isFinal) : b = a := by
  obtain rfl | ⟨⟨hf, -⟩, -⟩ := h
  · rfl
  · rw [ha] at hf
    cases hf

theorem Shifts.eq_of_closing {b : WorkerState} (h : closing.Shifts b) : b = closing := by
  obtain rfl | ⟨⟨-, hc⟩, -⟩ := h
  · rfl
  · exact (hc rfl).elim

theorem Shifts.eq_of_exited {a : WorkerState} (h : a.Shifts exited) : a = exited := by
  obtain rfl | ⟨-, hb | ⟨hb, -⟩⟩ := h
  · rfl
  · cases hb
  · cases hb

end WorkerState

namespace Seat

theorem release_shifts (s : Seat) : s.state.Shifts s.release.state := by
  unfold release
  dsimp only
  split
  · rename_i h
    rw [h.2]
    decide
  · exact .inl rfl

theorem occupy_shifts (s : Seat) : s.state.Shifts s.occupy.state := by
  unfold occupy
  dsimp only
  cases s.state <;> decide

theorem online_shifts (s : Seat) : s.state.Shifts s.online.state := by
  unfold online
  split
  · rename_i h
    rw [h]
    dsimp only
    split <;> decide
  · exact .inl rfl

theorem fail_shifts (s : Seat) : s.state.Shifts s.fail.state := by
  unfold fail
  split
  · exact .inl rfl
  · rename_i h
    obtain ⟨hf, hc⟩ := not_or.mp h
    exact .inr ⟨⟨Bool.eq_false_iff.mpr hf, hc⟩, .inl rfl⟩

end Seat

structure Post where
  worker : Option WorkerId
  generation : Nat
  state : WorkerState

structure Life where
  seat : Nat
  generation : Nat
  phase : Phase := .starting
  connected : Bool := true
  /-- It will find in its inbox that it shall leave. -/
  asked : Bool := false
  notes : List Note := []
  monitor : Monitor := .watching false

/-- A state that is given to a generation of a seat whatever its state was. -/
structure Override where
  seat : Nat
  generation : Nat
  state : WorkerState
deriving DecidableEq

structure Roll where
  posts : List Post
  lives : List Life
  closed : Bool
  closing : Closing

def Phase.works : Phase → Bool
  | starting | serving => true
  | _ => false

inductive Life.Moves (x : Life) : Life → Prop
  | report (h : x.phase = .starting) : Moves x { x with phase := .serving, notes := x.notes ++ [.online] }
  | crash (h : x.phase = .serving) : Moves x { x with phase := .leaving }
  | quit (h : x.phase = .serving) (hask : x.asked ∨ x.connected = false) (asked : Bool) :
      Moves x { x with phase := .leaving, notes := x.notes ++ [.exited], asked }
  | fade {phase} (h : x.phase.works = false) (hp : phase.speaks = false) (asked : Bool) :
      Moves x { x with phase, asked }

namespace Roll

def cut (r : Roll) : Option WorkerId → List Life
  | some w => r.lives.modify w fun x ↦ { x with connected := false }
  | none => r.lives

theorem length_cut (r : Roll) (worker : Option WorkerId) : (r.cut worker).length = r.lives.length := by
  cases worker with
  | none => rfl
  | some w => exact length_modify ..

def start (r : Roll) (i : Nat) (s : Post) : Roll :=
  { r with
    posts := r.posts.set i ⟨some r.lives.length, s.generation + 1, .starting⟩
    lives := r.cut s.worker ++ [{ seat := i, generation := s.generation + 1 }] }

def IsDeaf (r : Roll) (s : Post) : Prop :=
  ∀ w x, s.worker = some w → r.lives[w]? = some x → x.phase.listens = false

/-- Whatever can happen, with the state that it gives to somebody whatever his state was. -/
inductive Step (r : Roll) : Option Override → Roll → Prop
  | stay : Step r none r
  | shift {i s state} (hs : r.posts[i]? = some s)
      (h : s.state.Shifts state) : Step r none { r with posts := r.posts.set i { s with state } }
  | live {w : WorkerId} {x y} (hx : r.lives[w]? = some x) (h : x.Moves y) :
      Step r none { r with lives := r.lives.set w y }
  | readOnline {w : WorkerId} {x rest s state}
      (hx : r.lives[w]? = some x) (hn : x.notes = .online :: rest) (hs : r.posts[x.seat]? = some s)
      (hg : s.generation = x.generation) (h : s.state.Shifts state) : Step r none { r with
        posts := r.posts.set x.seat { s with state }
        lives := r.lives.set w { x with notes := rest } }
  | readExit {w : WorkerId} {x rest s} (hx : r.lives[w]? = some x)
      (hm : x.monitor ≠ .through) (hn : x.notes = .exited :: rest) (hs : r.posts[x.seat]? = some s)
      (hg : s.generation = x.generation) : Step r (some ⟨x.seat, x.generation, .exited⟩) { r with
        posts := r.posts.set x.seat { s with state := .exited }
        lives := r.lives.set w { x with notes := rest, monitor := .watching true } }
  | turnAway {w : WorkerId} {x} (hx : r.lives[w]? = some x)
      (hg : ∀ s, r.posts[x.seat]? = some s → s.generation ≠ x.generation) :
      Step r none { r with lives := r.lives.set w { x with monitor := .through } }
  | seenOff {w : WorkerId} {x} (hx : r.lives[w]? = some x) (hm : x.monitor = .watching true)
      (hp : x.phase.speaks = false) :
      Step r none { r with lives := r.lives.set w { x with monitor := .through } }
  | missed {w : WorkerId} {x} (hx : r.lives[w]? = some x) (hm : x.monitor = .watching false)
      (hn : x.notes = []) (hp : x.phase.speaks = false) : Step r none { r with
        posts := r.posts.modify x.seat fun s ↦
          if s.generation = x.generation ∧ s.state.isFinal = false then { s with state := .errored } else s
        lives := r.lives.set w { x with monitor := .through } }
  | start {i s} (hs : r.posts[i]? = some s) (h : s.state.isFinal ∨ r.IsDeaf s) : Step r none (r.start i s)
  | begin (h : r.closed = false) : Step r none { r with closed := true, closing := .asking 0 [] }
  | ask {next asked s w x}
      (hc : r.closing = .asking next asked) (hs : r.posts[next]? = some s) (hf : s.state.isFinal = false)
      (hw : s.worker = some w) (hx : r.lives[w]? = some x) : Step r none { r with
        posts := r.posts.set next { s with state := .closing }
        lives := r.lives.set w { x with asked := true }
        closing := .asking (next + 1) (asked ++ [⟨next, s.generation, w⟩]) }
  | askVain {next asked s} (hc : r.closing = .asking next asked)
      (hs : r.posts[next]? = some s) (hf : s.state.isFinal = false) (h : r.IsDeaf s) :
      Step r none { r with
        posts := r.posts.set next { s with state := .closing }
        closing := .asking (next + 1) asked }
  | skip {next asked s} (hc : r.closing = .asking next asked) (hs : r.posts[next]? = some s) (hf : s.state.isFinal) :
      Step r none { r with closing := .asking (next + 1) asked }
  | await {next asked} (hc : r.closing = .asking next asked)
      (hs : r.posts.length ≤ next) (now : Nat) : Step r none { r with closing := .awaiting now asked }
  | ended {since l rest} (hc : r.closing = .awaiting since (l :: rest))
      (h : ∀ x, r.lives[l.worker]? = some x → x.monitor = .through) (now : Nat) :
      Step r none { r with closing := .awaiting now rest }
  | grace {since l rest} (hc : r.closing = .awaiting since (l :: rest))
      (now : Nat) : Step r (some ⟨l.seat, l.generation, .errored⟩) { r with
        posts := r.posts.modify l.seat fun s ↦
          if s.generation = l.generation then { s with state := .errored } else s
        closing := .awaiting now rest }
  | finish {since} (hc : r.closing = .awaiting since []) : Step r none { r with closing := .done }

end Roll

variable {σ : Type}

def Seat.post (s : Seat) : Post :=
  ⟨s.worker, s.generation, s.state⟩

def Worker.life (x : Worker σ) : Life :=
  { seat := x.seat
    generation := x.generation
    phase := x.phase
    connected := x.connected
    asked := x.inbox.any (·.id?.isNone)
    notes := x.notes
    monitor := x.monitor }

namespace Pool

def roll (p : Pool σ) : Roll :=
  ⟨p.seats.map Seat.post, p.workers.map Worker.life, p.closed, p.closing⟩

variable {p q : Pool σ} {w : WorkerId} {x : Worker σ} {i g : Nat} {id : RequestId} {s : Seat}

theorem lives_eq_some {y : Life} : p.roll.lives[w]? = some y ↔ ∃ x, p.workers[w]? = some x ∧ x.life = y := by
  simp [roll, List.getElem?_map]

theorem posts_eq_some {s : Post} : p.roll.posts[i]? = some s ↔ ∃ t, p.seats[i]? = some t ∧ t.post = s := by
  simp [roll, List.getElem?_map]

theorem lives_of (hx : p.workers[w]? = some x) : p.roll.lives[w]? = some x.life :=
  lives_eq_some.mpr ⟨x, hx, rfl⟩

theorem posts_of (hs : p.seats[i]? = some s) : p.roll.posts[i]? = some s.post :=
  posts_eq_some.mpr ⟨s, hs, rfl⟩

theorem roll_setWorker (hx : p.workers[w]? = some x) (f : Worker σ → Worker σ) :
    (p.setWorker w f).roll = { p.roll with lives := p.roll.lives.set w (f x).life } := by
  simp only [setWorker, roll, modify_eq_set hx, map_set]

theorem roll_setWorker_same {f : Worker σ → Worker σ} (hf : ∀ x, (f x).life = x.life) :
    (p.setWorker w f).roll = p.roll := by
  simp only [setWorker, roll, map_modify_same hf]

theorem roll_detachAll (ids : List RequestId) : (ids.foldl detach p).roll = p.roll :=
  foldl_same roll (fun _ _ ↦ by rfl) ids p

theorem roll_setSeat (hs : p.seats[i]? = some s) (f : Seat → Seat) :
    (p.setSeat i f).roll = { p.roll with posts := p.roll.posts.set i (f s).post } := by
  simp only [setSeat, roll, modify_eq_set hs, map_set]

theorem roll_shift (hs : p.seats[i]? = some s) {f : Seat → Seat}
    (hf : (f s).worker = s.worker ∧ (f s).generation = s.generation) (h : s.state.Shifts (f s).state) :
    p.roll.Step none (p.setSeat i f).roll := by
  have hpost : (f s).post = { s.post with state := (f s).state } := by
    simp only [Seat.post, hf.1, hf.2]
  rw [roll_setSeat hs, hpost]
  exact .shift (posts_of hs) h

theorem roll_update {f : Seat → Seat} (hf : ∀ s, (f s).worker = s.worker ∧ (f s).generation = s.generation)
    (h : ∀ s : Seat, s.state.Shifts (f s).state) : p.roll.Step none (p.update i g f).roll := by
  cases hs : p.seats[i]? with
  | none =>
    have hsame : p.seats.modify i (fun s ↦ if s.generation = g then f s else s) = p.seats :=
      modify_eq_self (List.getElem?_eq_none_iff.mp hs)
    simp only [update, setSeat, roll, hsame]
    exact .stay
  | some s =>
    refine roll_shift hs ?_ ?_
    · split
      · exact hf s
      · exact ⟨rfl, rfl⟩
    · split
      · exact h s
      · exact .inl rfl

theorem update_update {f : Seat → Seat} (hf : ∀ s, (f s).generation = s.generation) (k : Seat → Seat) :
    (p.update i g f).update i g k = p.update i g (k ∘ f) := by
  simp only [update, setSeat, modify_modify_eq]
  congr 2
  funext s
  by_cases hg : s.generation = g
  · simp [hg, hf s]
  · simp [hg]

section Watch

theorem roll_release (t : Ticket) : p.roll.Step none (p.release t).roll :=
  roll_update (p := p) Seat.release_seating Seat.release_shifts

theorem roll_drainStep (h : p.drainStep id = some q) : p.roll.Step none q.roll := by
  simp only [drainStep, Option.bind_eq_bind, Option.bind_eq_some_iff] at h
  obtain ⟨t, -, h⟩ := h
  split at h
  · split at h
    · cases h
      exact .stay
    · cases h
      exact roll_release (p := p.markRead id) t
    · split at h <;> cases h
      exact roll_release t
  · cases h

theorem roll_replayStep (h : p.replayStep w = some q) : p.roll.Step none q.roll := by
  simp only [replayStep, Option.bind_eq_bind, Option.bind_eq_some_iff] at h
  obtain ⟨x, -, id, -, t, -, h⟩ := h
  have hforget (p : Pool σ) : (p.forgetReplay w id).roll = p.roll :=
    roll_setWorker_same (p := p.hold id .released) fun _ ↦ rfl
  split at h
  · cases h
    exact .stay
  · cases h
    rw [hforget]
    exact .stay
  · cases h
    have hstep := roll_update (p := (p.markRead id).forgetReplay w id) (i := x.seat) (g := x.generation)
      Seat.fail_seating Seat.fail_shifts
    rwa [hforget] at hstep
  · split at h <;> cases h
    rw [hforget]
    exact .stay

theorem roll_hear {heard : Heard} (h : p.hear id = some (heard, q)) : p.roll.Step none q.roll := by
  simp only [hear, Option.bind_eq_bind, Option.bind_eq_some_iff] at h
  obtain ⟨t, -, h⟩ := h
  split at h
  · cases h
    exact .stay
  · cases h
    exact roll_release (p := p.markRead id) t
  · split at h <;> cases h
    -- the seat fails and is released at once
    have hboth : ((p.update t.seat t.generation Seat.fail).release t).roll =
        (p.update t.seat t.generation (Seat.release ∘ Seat.fail)).roll :=
      congrArg (fun q : Pool σ ↦ (q.hold t.id .released).roll)
        (update_update (p := p) (fun s ↦ (Seat.fail_seating s).2) Seat.release)
    rw [hboth]
    refine roll_update (fun s ↦ ?_) fun s ↦ ?_
    · exact Seat.fail_seating s
    · exact (Seat.fail_shifts s).trans (Seat.release_shifts s.fail)

def exitRead? (p : Pool σ) (w : WorkerId) : Option Override :=
  match p.workers[w]? with
  | some x =>
    if p.isCurrent x ∧ x.notes.head? = some .exited then some ⟨x.seat, x.generation, .exited⟩ else none
  | none => none

theorem isCurrent_iff : p.isCurrent x ↔ ∃ s, p.seats[x.seat]? = some s ∧ s.generation = x.generation := by
  simp [isCurrent]

theorem update_current (hg : s.generation = g) (hs : p.seats[i]? = some s) (f : Seat → Seat) :
    (p.update i g f).roll = { p.roll with posts := p.roll.posts.set i (f s).post } := by
  unfold update
  rw [roll_setSeat hs, if_pos hg]

theorem roll_monitorStep (h : p.monitorStep w = some q) : p.roll.Step (p.exitRead? w) q.roll := by
  simp only [monitorStep, Option.bind_eq_bind, Option.bind_eq_some_iff] at h
  obtain ⟨x, hx, h⟩ := h
  have hlife := lives_of hx
  simp only [exitRead?, hx]
  split at h
  · cases h
  · rename_i exited hm hn
    rw [if_neg (by simp [hn])]
    split at h
    · cases h
    · rename_i hp
      cases h
      have hp : x.life.phase.speaks = false := Bool.eq_false_iff.mpr hp
      cases exited with
      | true =>
        rw [if_pos rfl, setMonitor, roll_setWorker hx]
        exact .seenOff hlife hm hp
      | false =>
        have hposts : ((p.update x.seat x.generation Seat.crashed).seats).map Seat.post =
            p.roll.posts.modify x.seat fun s ↦
              if s.generation = x.generation ∧ s.state.isFinal = false then { s with state := .errored }
              else s := by
          refine map_modify (fun s ↦ ?_) x.seat
          by_cases hg : s.generation = x.generation <;> cases hf : s.state.isFinal <;>
            simp [Seat.crashed, Seat.post, hg, hf]
        have hroll := roll_setWorker (p := p.update x.seat x.generation Seat.crashed) hx fun x ↦
          { x with monitor := .through }
        simp only [Bool.false_eq_true, if_false, setMonitor]
        rw [hroll]
        simp only [roll, hposts]
        exact .missed hlife hm hn hp
  · rename_i note rest hm hn
    have hrest := roll_setWorker hx fun x ↦ { x with notes := rest }
    split at h
    · rename_i hc
      obtain ⟨s, hs, hg⟩ := isCurrent_iff.mp hc
      split at h
      · rw [if_neg (by simp [hn])]
        cases h
        have hpost : s.online.post = { s.post with state := s.online.state } := by
          simp only [Seat.post, (Seat.online_seating s).1, (Seat.online_seating s).2]
        rw [update_current hg (p := p.setWorker w _) hs, hrest, hpost]
        exact .readOnline hlife hn (posts_of hs) hg (Seat.online_shifts s)
      · rw [if_pos ⟨hc, by simp [hn]⟩]
        cases h
        have hx' : ((p.setWorker w fun x ↦ { x with notes := rest }).update x.seat x.generation
            Seat.exited).workers[w]? = some { x with notes := rest } := workers_setWorker hx _
        rw [setMonitor, roll_setWorker hx', update_current hg (p := p.setWorker w _) hs, hrest]
        rw [set_set]
        exact .readExit hlife (by rw [show x.life.monitor = x.monitor from rfl, hm]; nofun) hn (posts_of hs) hg
    · rename_i hc
      rw [if_neg fun hboth ↦ hc hboth.1]
      cases h
      rw [setMonitor, roll_setWorker hx]
      refine .turnAway hlife fun s hs hg ↦ hc ?_
      obtain ⟨t, ht, rfl⟩ := posts_eq_some.mp hs
      exact isCurrent_iff.mpr ⟨t, ht, hg⟩

end Watch

theorem roll_workerStep [Digest] {engine : RuleEngine σ} (h : p.workerStep engine w = some q) :
    p.roll.Step none q.roll := by
  obtain ⟨x, hx, said, done, y, disk, -, ha, rfl⟩ := worked_of_workerStep h
  have hlife := lives_of hx
  have hroll : p.workers.map Worker.life = p.roll.lives := rfl
  have hmoves (hm : x.life.Moves y.life) :
      p.roll.Step none { p.roll with lives := (p.workers.set w y).map Worker.life } := by
    rw [map_set]
    exact .live hlife hm
  have hstays (hy : y.life = x.life) :
      p.roll.Step none { p.roll with lives := (p.workers.set w y).map Worker.life } := by
    rw [map_set_same hx hy]
    exact .stay
  have hworks (hp : x.phase.works = false) : x.life.phase.works = false := hp
  cases ha with
  | report hp => exact hmoves (.report hp)
  | begin hp hw hin hb => exact hstays (by simp [Worker.life, hin, Message.id?])
  | step | fail => exact hstays rfl
  | crash hp hw hs => exact hmoves (.crash hp)
  | quit hp hw hin hc => exact hmoves (.quit hp (.inr hc) _)
  | close hp hw hin => exact hmoves (.quit hp (.inl (by simp [Worker.life, hin, Message.id?])) _)
  | fade hp | drop hp | vanish hp => exact hmoves (.fade (hworks (by rw [hp]; rfl)) rfl _)

section Send

variable (setup : PoolSetup σ) {m : Message}

theorem roll_disconnect (s : Seat) : (p.disconnect s).roll = { p.roll with lives := p.roll.cut s.worker } := by
  unfold disconnect Roll.cut
  cases s.worker with
  | some v =>
    simp only [setWorker, roll]
    rw [map_modify (k := fun y : Life ↦ { y with connected := false }) fun _ ↦ rfl]
  | none => rfl

theorem roll_startWorker (hs : p.seats[i]? = some s) : (p.startWorker setup i).roll = p.roll.start i s.post := by
  have hcut := roll_disconnect (p := p) s
  simp only [roll, Roll.mk.injEq] at hcut
  obtain ⟨hposts, hlives, hclosed, hclosing⟩ := hcut
  simp only [startWorker, hs, replayFor, roll, Roll.start, map_append, map_set, hposts, hlives, hclosed,
    hclosing, length_map]
  cases p.linter <;> rfl

theorem isDeaf_iff : p.roll.IsDeaf s.post ↔ p.IsDeaf s := by
  refine ⟨fun h w x hw hx ↦ h w x.life hw (lives_of hx), fun h w y hw hy ↦ ?_⟩
  obtain ⟨x, hx, rfl⟩ := lives_eq_some.mp hy
  exact h w x hw hx

section Enqueue

variable {s : Seat} {request : Request} {streaming : Bool} {r : Except AnalysisError Unit}

theorem roll_give (hx : p.workers[w]? = some x) : (p.give i s w x id (.analyze id request streaming)).roll =
      { p.roll with posts := p.roll.posts.set i { s.post with state := s.occupy.state } } := by
  have hlife : ({ x with inbox := x.inbox ++ [.analyze id request streaming] } : Worker σ).life = x.life := by
    simp [Worker.life, Message.id?]
  simp only [roll, give, map_set_same hx hlife, map_set]
  rfl

theorem roll_enqueue (hs : p.seats[i]? = some s) (h : p.enqueue setup i id request streaming = (r, q)) :
    ((s.state.isFinal = false ∧ ¬ p.roll.IsDeaf s.post) ∧
        q.roll = { p.roll with posts := p.roll.posts.set i { s.post with state := s.occupy.state } }) ∨
      ((s.state.isFinal ∨ p.roll.IsDeaf s.post) ∧ q.roll = p.roll.start i s.post) := by
  cases enqueued h with
  | nowhere hi => cases hs.symm.trans hi
  | given hi hf hw hx hl =>
    cases hs.symm.trans hi
    refine .inl ⟨⟨hf, fun hdeaf ↦ ?_⟩, roll_give hx⟩
    cases (hdeaf _ _ hw (lives_of hx)).symm.trans hl
  | @started _ s' x hi hu hi' hw hx =>
    cases hs.symm.trans hi
    refine .inr ⟨hu.imp_right isDeaf_iff.mpr, ?_⟩
    -- a seat that is starting stays so when it is given something to do
    have hroll := roll_startWorker setup hs
    have hpost : s'.post = ⟨some p.roll.lives.length, s.generation + 1, .starting⟩ := by
      have hget := posts_of hi'
      rw [hroll, Roll.start, List.getElem?_set_self (lt_of_getElem? (posts_of hs))] at hget
      exact (Option.some.inj hget).symm
    have hbusy : { s'.post with state := s'.occupy.state } = s'.post := by
      have hstate : s'.state = .starting := congrArg Post.state hpost
      simp [Seat.occupy, Seat.post, hstate, WorkerState.isFree]
    rw [roll_give hx, hbusy, hroll, hpost]
    simp only [Roll.start, set_set]
    rfl

theorem rolls_enqueue (h : p.enqueue setup i id request streaming = (r, q)) : p.roll.Step none q.roll := by
  cases hs : p.seats[i]? with
  | none =>
    cases enqueued h with
    | nowhere => exact .stay
    | given hi | started hi => cases hs.symm.trans hi
  | some s =>
    obtain ⟨-, hq⟩ | ⟨hunfit, hq⟩ := roll_enqueue setup hs h
    · rw [hq]
      exact .shift (posts_of hs) (Seat.occupy_shifts s)
    · rw [hq]
      exact .start (posts_of hs) hunfit

end Enqueue

end Send

section Close

theorem roll_beginClose (h : p.beginClose = some q) : p.roll.Step none q.roll := by
  unfold beginClose at h
  split at h
  · cases h
  · rename_i hc
    cases h
    exact .begin (Bool.eq_false_iff.mpr hc)

variable {now : Nat}

theorem roll_graceOver (h : p.graceOver now = some q) :
    p.roll.Step (p.nextToGoOver.map fun o ↦ ⟨o.1, o.2, .errored⟩) q.roll := by
  unfold graceOver at h
  split at h
  · rename_i l rest hc
    cases h
    have hposts : ((p.update l.seat l.generation fun s ↦ { s with state := .errored }).seats).map Seat.post =
        p.roll.posts.modify l.seat fun s ↦
          if s.generation = l.generation then { s with state := .errored } else s := by
      refine map_modify (fun s ↦ ?_) l.seat
      by_cases hg : s.generation = l.generation <;> simp [Seat.post, hg]
    simp only [nextToGoOver, hc, Option.map_some]
    simp only [roll, hposts]
    exact .grace (r := p.roll) hc now
  · cases h

theorem roll_closeStep (h : p.closeStep now = some q) : p.roll.Step none q.roll := by
  cases closes_of_closeStep h with
  | @ask next asked s w x hc hi hf hw hx =>
    have hlife : ({ x with inbox := x.inbox ++ [.close] } : Worker σ).life = { x.life with asked := true } := by
      simp [Worker.life, Message.id?]
    simp only [roll, map_set, hlife]
    exact .ask (r := p.roll) hc (posts_of hi) hf hw (lives_of hx)
  | askVain hc hi hf hd =>
    simp only [roll, map_set]
    exact .askVain (r := p.roll) hc (posts_of hi) hf (isDeaf_iff.mpr hd)
  | skip hc hi hf => exact .skip hc (posts_of hi) hf
  | await hc hi =>
    refine .await hc ?_ now
    rw [roll, length_map]
    exact List.getElem?_eq_none_iff.mp hi
  | ended hc he =>
    refine .ended hc (fun x hx ↦ ?_) now
    obtain ⟨y, hy, rfl⟩ := lives_eq_some.mp hx
    simp only [hasEnded, hy, decide_eq_true_eq] at he
    exact he
  | finish hc => exact .finish hc

end Close

end Pool

end AnalysisServer
