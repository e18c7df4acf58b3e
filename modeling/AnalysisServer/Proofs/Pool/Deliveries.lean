import AnalysisServer.Pool.Close
import AnalysisServer.Proofs.Lists

namespace AnalysisServer.Pool

variable {σ : Type} {setup : PoolSetup σ} {p q : Pool σ} {i : Nat} {id : RequestId} {m : Message} {s : Seat}
  {r : Except AnalysisError Unit}

/-- A message is put into the inbox of the worker of a seat, with a ticket for it. -/
def give (p : Pool σ) (i : Nat) (s : Seat) (w : WorkerId) (x : Worker σ) (id : RequestId) (m : Message) : Pool σ :=
  { p with
    workers := p.workers.set w { x with inbox := x.inbox ++ [m] }
    seats := p.seats.set i s.occupy
    tickets := p.tickets ++ [{ id, seat := i, generation := s.generation, holder := .caller }] }

def IsDeaf (p : Pool σ) (s : Seat) : Prop :=
  ∀ w x, s.worker = some w → p.workers[w]? = some x → x.phase.listens = false

/-- A message for a seat goes to its worker, or to a new one. -/
inductive Enqueued (setup : PoolSetup σ) (p : Pool σ) (i : Nat) (id : RequestId) (m : Message) :
    Except AnalysisError Unit → Pool σ → Prop
  | nowhere (hi : p.seats[i]? = none) : Enqueued setup p i id m (.error (refusal i id)) p
  | given {s w x} (hi : p.seats[i]? = some s) (hf : s.state.isFinal = false) (hw : s.worker = some w)
      (hx : p.workers[w]? = some x) (hl : x.phase.listens) :
      Enqueued setup p i id m (.ok ()) (p.give i s w x id m)
  | started {s s' x} (hi : p.seats[i]? = some s) (hu : s.state.isFinal ∨ p.IsDeaf s)
      (hi' : (p.startWorker setup i).seats[i]? = some s') (hw : s'.worker = some p.workers.length)
      (hx : (p.startWorker setup i).workers[p.workers.length]? = some x) :
      Enqueued setup p i id m (.ok ()) ((p.startWorker setup i).give i s' p.workers.length x id m)

theorem send_eq_some {w : WorkerId} : p.send w m = some q ↔ ∃ x, p.workers[w]? = some x ∧ x.phase.listens ∧
    q = { p with workers := p.workers.set w { x with inbox := x.inbox ++ [m] } } := by
  unfold send
  cases hx : p.workers[w]? with
  | none => simp
  | some x =>
    simp only [setWorker, modify_eq_set hx, Option.ite_none_right_eq_some, Option.some.injEq]
    exact ⟨fun ⟨hl, hq⟩ ↦ ⟨x, rfl, hl, hq.symm⟩, fun ⟨_, rfl, hl, hq⟩ ↦ ⟨hl, hq.symm⟩⟩

theorem seats_disconnect (s : Seat) : (p.disconnect s).seats = p.seats := by
  unfold disconnect
  split <;> rfl

theorem length_disconnect (s : Seat) : (p.disconnect s).workers.length = p.workers.length := by
  unfold disconnect
  split
  · exact List.length_modify ..
  · rfl

theorem exists_startWorker (setup : PoolSetup σ) (hi : p.seats[i]? = some s) : ∃ s' x,
    (p.startWorker setup i).seats[i]? = some s' ∧ s'.worker = some p.workers.length ∧
      (p.startWorker setup i).workers[p.workers.length]? = some x ∧ x.phase.listens := by
  have hlt : i < (p.disconnect s).seats.length := seats_disconnect (p := p) s ▸ lt_of_getElem? hi
  simp only [startWorker, hi, ← length_disconnect (p := p) s]
  exact ⟨_, _, List.getElem?_set_self hlt, rfl, List.getElem?_concat_length, rfl⟩

theorem enqueueWithin_of_ready {tries : Nat} (hi : (p.ensureWorker setup i).seats[i]? = some s) {w : WorkerId}
    {x : Worker σ} (hw : s.worker = some w) (hx : (p.ensureWorker setup i).workers[w]? = some x)
    (hl : x.phase.listens) : enqueueWithin setup i id m (tries + 1) p =
      (.ok (), (p.ensureWorker setup i).give i s w x id m) := by
  have hsend := (send_eq_some (m := m)).mpr ⟨x, hx, hl, rfl⟩
  simp only [enqueueWithin, hi, hw, Option.bind_some, hsend, setSeat, modify_eq_set hi]
  rfl

theorem isUsable_iff : p.isUsable s ↔
    s.state.isFinal = false ∧ ∃ w x, s.worker = some w ∧ p.workers[w]? = some x ∧ x.phase ≠ .gone := by
  unfold isUsable
  cases s.worker with
  | none => simp
  | some w => cases hx : p.workers[w]? <;> simp [hx, and_comm]

theorem ensureWorker_errored (setup : PoolSetup σ) (hi : p.seats[i]? = some s) :
    (p.setSeat i fun s ↦ { s with state := .errored }).ensureWorker setup i = p.startWorker setup i := by
  have hset : (p.setSeat i fun s ↦ { s with state := .errored }).seats[i]? =
      some { s with state := .errored } := by simp [setSeat, hi]
  have hunfit : (p.setSeat i fun s ↦ { s with state := .errored }).isUsable { s with state := .errored } = false :=
    Bool.eq_false_iff.mpr fun h ↦ by cases (isUsable_iff.mp h).1
  simp only [ensureWorker, startWorker, hset, hunfit, hi]
  unfold disconnect setSeat setWorker
  cases s.worker <;> simp only [modify_eq_set hi, List.set_set] <;> rfl

theorem enqueued {request : Request} {streaming : Bool} (h : p.enqueue setup i id request streaming = (r, q)) :
    p.Enqueued setup i id (.analyze id request streaming) r q := by
  cases hi : p.seats[i]? with
  | none =>
    simp only [enqueue, enqueueWithin, ensureWorker, hi] at h
    cases h
    exact .nowhere hi
  | some s =>
    obtain ⟨s', x', hi', hw', hx', hl'⟩ := exists_startWorker setup hi
    cases hu : p.isUsable s with
    | false =>
      have hready : p.ensureWorker setup i = p.startWorker setup i := by simp [ensureWorker, hi, hu]
      cases h.symm.trans (enqueueWithin_of_ready (hready ▸ hi') hw' (hready ▸ hx') hl')
      rw [hready]
      refine .started hi ?_ hi' hw' hx'
      cases hf : s.state.isFinal with
      | true => exact .inl rfl
      | false =>
        refine .inr fun w x hw hx ↦ ?_
        have hgone : x.phase = .gone := by simpa [isUsable, hf, hw, hx] using hu
        rw [hgone]
        rfl
    | true =>
      obtain ⟨hf, w, x, hw, hx, -⟩ := isUsable_iff.mp hu
      have hready : p.ensureWorker setup i = p := by simp [ensureWorker, hi, hu]
      cases hl : x.phase.listens with
      | true =>
        cases h.symm.trans (enqueueWithin_of_ready (hready.symm ▸ hi) hw (hready.symm ▸ hx) hl)
        rw [hready]
        exact .given hi hf hw hx hl
      | false =>
        -- the seat is given up, and at the second try it gets a new worker
        have hsend : p.send w (.analyze id request streaming) = none := by simp [send, hx, hl]
        have hready' := ensureWorker_errored setup hi
        rw [enqueue, enqueueWithin] at h
        simp only [hready, hi, hw, Option.bind_some, hsend] at h
        cases h.symm.trans (enqueueWithin_of_ready (hready' ▸ hi') hw' (hready' ▸ hx') hl')
        rw [hready']
        refine .started hi (.inr fun v y hv hy ↦ ?_) hi' hw' hx'
        cases hw.symm.trans hv
        cases hx.symm.trans hy
        exact hl

/-- A step of closing: a worker is asked to leave, or it is seen that there is nobody to wait for. -/
inductive Closes (p : Pool σ) (now : Nat) : Pool σ → Prop
  | ask {next asked s w x} (hc : p.closing = .asking next asked) (hi : p.seats[next]? = some s)
      (hf : s.state.isFinal = false) (hw : s.worker = some w) (hx : p.workers[w]? = some x) : Closes p now { p with
        seats := p.seats.set next { s with state := .closing }
        workers := p.workers.set w { x with inbox := x.inbox ++ [.close] }
        closing := .asking (next + 1) (asked ++ [⟨next, s.generation, w⟩]) }
  | askVain {next asked s} (hc : p.closing = .asking next asked) (hi : p.seats[next]? = some s)
      (hf : s.state.isFinal = false) (hd : p.IsDeaf s) : Closes p now { p with
        seats := p.seats.set next { s with state := .closing }
        closing := .asking (next + 1) asked }
  | skip {next asked s} (hc : p.closing = .asking next asked) (hi : p.seats[next]? = some s)
      (hf : s.state.isFinal) : Closes p now { p with closing := .asking (next + 1) asked }
  | await {next asked} (hc : p.closing = .asking next asked) (hi : p.seats[next]? = none) :
      Closes p now { p with closing := .awaiting now asked }
  | ended {since l rest} (hc : p.closing = .awaiting since (l :: rest)) (he : p.hasEnded l) :
      Closes p now { p with closing := .awaiting now rest }
  | finish {since} (hc : p.closing = .awaiting since []) : Closes p now { p with closing := .done }

theorem closes_askToLeave {next now : Nat} {asked : List Leaver} (hc : p.closing = .asking next asked)
    (hi : p.seats[next]? = some s) : p.Closes now { (p.askToLeave next s).2 with
      closing := .asking (next + 1) (asked ++ (p.askToLeave next s).1.toList) } := by
  unfold askToLeave
  split
  · rename_i hf
    simp only [Option.toList_none, List.append_nil]
    exact .skip hc hi hf
  · rename_i hf
    have hf : s.state.isFinal = false := Bool.eq_false_iff.mpr hf
    simp only [setSeat, modify_eq_set hi]
    split
    · rename_i hw
      simp only [Option.toList_none, List.append_nil]
      refine .askVain hc hi hf fun w x hw' ↦ ?_
      cases hw.symm.trans hw'
    · rename_i w hw
      split
      · rename_i hsend
        obtain ⟨x, hx, -, rfl⟩ := send_eq_some.mp hsend
        exact .ask hc hi hf hw hx
      · rename_i hsend
        simp only [Option.toList_none, List.append_nil]
        refine .askVain hc hi hf fun v x hv hx ↦ Bool.eq_false_iff.mpr fun hl ↦ ?_
        cases hw.symm.trans hv
        cases hsend.symm.trans (send_eq_some.mpr ⟨x, hx, hl, rfl⟩)

theorem closes_of_closeStep {now : Nat} (h : p.closeStep now = some q) : p.Closes now q := by
  unfold closeStep at h
  split at h
  · cases h
  · cases h
  · rename_i next asked hc
    split at h
    · rename_i hi
      cases h
      exact .await hc hi
    · rename_i s hi
      cases h
      exact closes_askToLeave hc hi
  · rename_i hc
    cases h
    exact .finish hc
  · rename_i l rest hc
    split at h
    · rename_i he
      cases h
      exact .ended hc he
    · cases h

end AnalysisServer.Pool
