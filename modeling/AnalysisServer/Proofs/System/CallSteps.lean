import AnalysisServer.System.Step
import AnalysisServer.Proofs.Lists

namespace AnalysisServer

variable {σ : Type} {q : Pool σ}

theorem Pool.giveNumber_error {p : Pool σ} {e : AnalysisError} (h : p.giveNumber = (.error e, q)) : q = p := by
  unfold Pool.giveNumber at h
  split at h <;> cases h
  rfl

def Stage.number? : Stage → Option RequestId
  | .numbered _ id => some id
  | .spreading _ id _ => id
  | _ => none

theorem Call.number?_of_closed {x : Call} (h : x.isOpen = false) : x.stage.number? = none := by
  unfold Call.isOpen at h
  split at h <;> simp_all [Stage.number?]

def Call.ended (x : Call) (stage : Stage) : Call :=
  { x with stage, deadline := x.deadline.stop.2 }

def Call.Deadlined (x : Call) (routers : List Router) (now : Nat) (d : Deadline Unit) : Prop :=
  d = x.deadline ∨ ∃ r router, x.router = some r ∧ routers[r]? = some router ∧ router.accepting ∧
    d = Deadline.start { delay := router.timeout } now ()

/-- A step of a call: the pool after it, and the call. -/
inductive Call.Step [Digest] (setup : PoolSetup σ) (s : System σ) (x : Call) : Pool σ → Call → Prop
  | accept {d} (h : x.stage = .arrived) (hd : x.Deadlined s.routers s.now d) :
      Step setup s x s.pool { x with stage := .accepted, deadline := d }
  | turnAway {r} (h : x.stage = .arrived) (hr : r ∈ s.routers) (ha : ¬ r.accepting) :
      Step setup s x s.pool { x with stage := .finished (.error System.stopped) }
  | remember (h : x.stage = .accepted) (hr : x.request.isBroadcast) :
      Step setup s x (s.pool.remember x.request) { x with stage := .spreading 0 none [] }
  | choose (h : x.stage = .accepted) (hr : x.request.isBroadcast = false) :
      Step setup s x (s.pool.choose setup x.request).2 { x with stage := .chosen (s.pool.choose setup x.request).1 }
  | number {seat id q} (h : x.stage = .chosen seat)
      (hq : s.pool.giveNumber = (.ok id, q)) : Step setup s x q { x with stage := .numbered seat id }
  | numberRefused {seat e q} (h : x.stage = .chosen seat)
      (hq : s.pool.giveNumber = (.error e, q)) : Step setup s x q (x.ended (.finished (.error e)))
  | send {seat id u q} (h : x.stage = .numbered seat id)
      (hq : s.pool.enqueue setup seat id x.request x.streaming = (.ok u, q)) :
      Step setup s x q { x with stage := .waiting id }
  | sendRefused {seat id e q} (h : x.stage = .numbered seat id)
      (hq : s.pool.enqueue setup seat id x.request x.streaming = (.error e, q)) :
      Step setup s x q (x.ended (.finished (.error e)))
  | hearPart {id part q} (h : x.stage = .waiting id) (hq : s.pool.hear id = some (.part part, q)) :
      Step setup s x q { x with heard := x.heard ++ [part] }
  | hear {id outcome q} (h : x.stage = .waiting id) (hq : s.pool.hear id = some (.outcome outcome, q)) :
      Step setup s x (q.detach id) (x.ended (.finished outcome))
  | spreadNumber {seat sent id q} (h : x.stage = .spreading seat none sent) (hs : seat < s.pool.seats.length)
      (hq : s.pool.giveNumber = (.ok id, q)) :
      Step setup s x q { x with stage := .spreading seat (some id) sent }
  | spreadClosed {seat sent e q} (h : x.stage = .spreading seat none sent) (hs : seat < s.pool.seats.length)
      (hq : s.pool.giveNumber = (.error e, q)) :
      Step setup s x q { x with stage := .spreading (seat + 1) none (sent ++ [.error e]) }
  | spreadSend {seat sent id u q} (h : x.stage = .spreading seat (some id) sent) (hs : seat < s.pool.seats.length)
      (hq : s.pool.enqueue setup seat id x.request false = (.ok u, q)) :
      Step setup s x q { x with stage := .spreading (seat + 1) none (sent ++ [.ok id]) }
  | spreadRefused {seat sent id e q} (h : x.stage = .spreading seat (some id) sent) (hs : seat < s.pool.seats.length)
      (hq : s.pool.enqueue setup seat id x.request false = (.error e, q)) :
      Step setup s x q { x with stage := .spreading (seat + 1) none (sent ++ [.error e]) }
  | gather {seat id sent} (h : x.stage = .spreading seat id sent) (hs : s.pool.seats.length ≤ seat) :
      Step setup s x s.pool { x with stage := .gathering sent none }
  | gathered {failure} (h : x.stage = .gathering [] failure) :
      Step setup s x s.pool (x.ended (.finished (System.gathered failure)))
  | gatherUnsent {e rest failure} (h : x.stage = .gathering (.error e :: rest) failure) :
      Step setup s x s.pool { x with stage := .gathering rest (System.note failure (.error e)) }
  | gatherPart {id rest failure part q} (h : x.stage = .gathering (.ok id :: rest) failure)
      (hq : s.pool.hear id = some (.part part, q)) : Step setup s x q x
  | gatherHear {id rest failure outcome q} (h : x.stage = .gathering (.ok id :: rest) failure)
      (hq : s.pool.hear id = some (.outcome outcome, q)) :
      Step setup s x q { x with stage := .gathering rest (System.note failure outcome) }

/-- What a step of a call can do to the pool. -/
inductive Pool.Visited (setup : PoolSetup σ) (p : Pool σ) (x : Call) : Pool σ → Prop
  | stay (turn : Nat) : Visited setup p x { p with turn }
  | remember {L} (hr : x.request = .initLinter L) : Visited setup p x { p with linter := some L }
  | number : Visited setup p x { p with nextId := p.nextId + 1 }
  | enqueue {i id streaming r q} (hid : x.stage.number? = some id)
      (h : p.enqueue setup i id x.request streaming = (r, q)) : Visited setup p x q
  | hear {id r q} (h : p.hear id = some (r, q)) : Visited setup p x q
  | hearLast {id r q} (h : p.hear id = some (r, q)) : Visited setup p x (q.detach id)

theorem Pool.giveNumber_ok {p : Pool σ} {id : RequestId} (h : p.giveNumber = (.ok id, q)) :
    id = p.nextId ∧ q = { p with nextId := p.nextId + 1 } := by
  unfold Pool.giveNumber at h
  split at h <;> cases h
  exact ⟨rfl, rfl⟩

theorem Call.Step.visited [Digest] {setup : PoolSetup σ} {s : System σ} {x y : Call} (h : x.Step setup s q y) :
    s.pool.Visited setup x q := by
  cases h with
  | remember h hr =>
    cases hreq : x.request with
    | initLinter L => exact .remember hreq
    | _ => exact .stay _
  | choose h hr =>
    unfold Pool.choose
    dsimp only
    split <;> exact .stay _
  | number h hq | spreadNumber h hs hq =>
    rw [(Pool.giveNumber_ok hq).2]
    exact .number
  | numberRefused h hq | spreadClosed h hs hq =>
    rw [Pool.giveNumber_error hq]
    exact .stay _
  | send h hq | sendRefused h hq | spreadSend h hs hq | spreadRefused h hs hq =>
    exact .enqueue (by rw [h]; rfl) hq
  | hearPart h hq | gatherPart h hq | gatherHear h hq => exact .hear hq
  | hear h hq => exact .hearLast hq
  | _ => exact .stay _

theorem Call.Step.number?_eq [Digest] {setup : PoolSetup σ} {s : System σ} {x y : Call} {id : RequestId}
    (h : x.Step setup s q y) (hid : y.stage.number? = some id) : s.pool.giveNumber = (.ok id, q) := by
  cases h with
  | number h hq | spreadNumber h hs hq =>
    cases hid
    exact hq
  | hearPart h | gatherPart h =>
    simp only [h] at hid
    cases hid
  | _ => cases hid

namespace System

def terms (s : System σ) : List (Nat × Bool) :=
  s.routers.map fun r ↦ (r.timeout, r.accepting)

def delays (s : System σ) : List Nat :=
  s.routers.map Router.timeout

structure Becomes (s s' : System σ) (c : Nat) (q : Pool σ) (y : Call) : Prop where
  calls : s'.calls = s.calls.set c y
  pool : s'.pool = q
  terms : s'.terms = s.terms

variable {s s' : System σ} {c : Nat} {x : Call} {y : Call} {stage : Stage} {i : Nat}

theorem calls_setCall (hx : s.calls[c]? = some x) (f : Call → Call) : (s.setCall c f).calls = s.calls.set c (f x) :=
  modify_eq_set hx f

theorem map_setRouter {α : Type} {g : Router → α} {r : Nat} {f : Router → Router}
    (hf : ∀ z, g (f z) = g z) : (s.setRouter r f).routers.map g = s.routers.map g :=
  map_modify_same hf r

theorem depart_frame (s : System σ) (x : Call) :
    (s.depart x).calls = s.calls ∧ (s.depart x).pool = s.pool ∧ (s.depart x).terms = s.terms := by
  unfold depart
  split
  · exact ⟨rfl, rfl, rfl⟩
  · exact ⟨rfl, rfl, rfl⟩
  · exact ⟨rfl, rfl, map_setRouter fun _ ↦ rfl⟩

theorem Becomes.setStage (hx : s.calls[c]? = some x) (q : Pool σ) (stage : Stage) :
    s.Becomes ({ s with pool := q }.setStage c stage) c q { x with stage } :=
  ⟨calls_setCall (s := { s with pool := q }) hx _, rfl, rfl⟩

theorem Becomes.endCall (hx : s.calls[c]? = some x) (q : Pool σ) (z : Call) (stage : Stage) :
    s.Becomes ({ s with pool := q }.endCall c z stage) c (z.tickets.foldl Pool.detach q) (x.ended stage) := by
  obtain ⟨hcalls, hpool, hterms⟩ := { s with pool := q }.depart_frame z
  have hx' : ({ s with pool := q }.depart z).calls[c]? = some x := by
    rwa [hcalls]
  refine ⟨?_, congrArg (z.tickets.foldl Pool.detach) hpool, hterms⟩
  have hset := calls_setCall hx' fun x ↦ { x with stage, deadline := x.deadline.stop.2 }
  rwa [hcalls] at hset

theorem Becomes.delays (h : s.Becomes s' c q y) : s'.delays = s.delays := by
  have hfst := congrArg (List.map Prod.fst) h.terms
  simpa [System.terms, System.delays, Function.comp_def] using hfst

theorem Becomes.calls_cases (h : s.Becomes s' c q y) (hx : s.calls[c]? = some x)
    {c' : Nat} {z : Call} (hz : s'.calls[c']? = some z) :
    (c' = c ∧ z = y) ∨ (c' ≠ c ∧ s.calls[c']? = some z) :=
  getElem?_set_cases hx (h.calls ▸ hz)

theorem Becomes.call (h : s.Becomes s' c q y) (hx : s.calls[c]? = some x) : s'.calls[c]? = some y :=
  h.calls ▸ getElem?_set_same hx

variable [Digest] {setup : PoolSetup σ}

def Takes (setup : PoolSetup σ) (s s' : System σ) (c : Nat) (x : Call) : Prop :=
  ∃ q y, x.Step setup s q y ∧ s.Becomes s' c q y

section

variable (hx : s.calls[c]? = some x)

include hx

theorem Takes.setStage
    (h : x.Step setup s q { x with stage }) : Takes setup s ({ s with pool := q }.setStage c stage) c x :=
  ⟨q, _, h, .setStage hx q stage⟩

theorem Takes.endCall {r : Pool σ} (hr : x.tickets.foldl Pool.detach q = r) (h : x.Step setup s r (x.ended stage)) :
    Takes setup s ({ s with pool := q }.endCall c x stage) c x :=
  ⟨r, _, h, hr ▸ .endCall hx q x stage⟩

theorem arrive_takes (h : x.stage = .arrived) : Takes setup s (s.arrive c x) c x := by
  unfold arrive
  split
  · exact .setStage hx (.accept h (.inl rfl))
  · rename_i r hr
    split
    · exact .setStage hx (.accept h (.inl rfl))
    · rename_i router hrouter
      split
      · rename_i ha
        have hd : x.Deadlined s.routers s.now (Deadline.start { delay := router.timeout } s.now ()) :=
          .inr ⟨r, router, hr, hrouter, ha, rfl⟩
        exact ⟨s.pool, _, .accept h hd, calls_setCall hx _, rfl, map_setRouter fun _ ↦ rfl⟩
      · rename_i hclosed
        exact .setStage hx (.turnAway h (List.mem_of_getElem? hrouter) hclosed)

theorem spread_takes {seat : Nat} {id : Option RequestId} {sent : List (Except AnalysisError RequestId)}
    (h : x.stage = .spreading seat id sent) :
    Takes setup s (s.spread setup c x seat id sent) c x := by
  unfold spread
  split
  · rename_i hseat
    cases id with
    | none =>
      dsimp only
      split
      · rename_i id q hq
        exact .setStage hx (.spreadNumber h hseat hq)
      · rename_i e q hq
        exact .setStage hx (.spreadClosed h hseat hq)
    | some id =>
      dsimp only
      split
      · rename_i u q hq
        exact .setStage hx (.spreadSend h hseat hq)
      · rename_i e q hq
        exact .setStage hx (.spreadRefused h hseat hq)
  · rename_i hseat
    exact .setStage hx (.gather h (Nat.le_of_not_lt hseat))

theorem gather_takes {left : List (Except AnalysisError RequestId)} {failure : Option AnalysisError}
    (hst : x.stage = .gathering left failure) (h : s.gather c x left failure = some s') : Takes setup s s' c x := by
  unfold gather at h
  split at h
  · cases h
    have hnone : x.tickets = [] := by simp [Call.tickets, hst]
    exact .endCall hx (by rw [hnone]; rfl) (.gathered hst)
  · cases h
    exact .setStage hx (.gatherUnsent hst)
  · split at h
    · cases h
    · rename_i part q hq
      cases h
      refine ⟨q, x, .gatherPart hst hq, ?_, rfl, rfl⟩
      obtain ⟨hlt, rfl⟩ := List.getElem?_eq_some_iff.mp hx
      exact (List.set_getElem_self hlt).symm
    · rename_i outcome q hq
      cases h
      exact .setStage hx (.gatherHear hst hq)

theorem listen_takes {id : RequestId} (hst : x.stage = .waiting id)
    (h : s.listen c id (fun outcome s ↦ s.endCall c x (.finished outcome)) = some s') :
    Takes setup s s' c x := by
  unfold listen at h
  split at h
  · cases h
  · rename_i part q hq
    cases h
    exact ⟨q, _, .hearPart hst hq, calls_setCall (s := { s with pool := q }) hx _, rfl, rfl⟩
  · rename_i outcome q hq
    cases h
    have hone : x.tickets = [id] := by simp [Call.tickets, hst]
    exact .endCall hx (by rw [hone]; rfl) (.hear hst hq)

theorem callStep_takes (h : s.callStep setup c = some s') : Takes setup s s' c x := by
  simp only [callStep, hx, Option.bind_eq_bind, Option.bind_some] at h
  cases hst : x.stage with
  | arrived =>
    simp only [hst, Option.some.injEq] at h
    exact h ▸ arrive_takes hx hst
  | accepted =>
    simp only [hst] at h
    split at h
    · rename_i hbroadcast
      cases h
      exact .setStage hx (.remember hst hbroadcast)
    · rename_i hbroadcast
      cases h
      exact .setStage hx (.choose hst (Bool.eq_false_iff.mpr hbroadcast))
  | chosen seat =>
    have hnone : x.tickets = [] := by simp [Call.tickets, hst]
    simp only [hst] at h
    split at h
    · rename_i id q hq
      cases h
      exact .setStage hx (.number hst hq)
    · rename_i e q hq
      cases h
      exact .endCall hx (by rw [hnone]; rfl) (.numberRefused hst hq)
  | numbered seat id =>
    have hnone : x.tickets = [] := by simp [Call.tickets, hst]
    simp only [hst] at h
    split at h
    · rename_i u q hq
      cases h
      exact .setStage hx (.send hst hq)
    · rename_i e q hq
      cases h
      exact .endCall hx (by rw [hnone]; rfl) (.sendRefused hst hq)
  | waiting id =>
    simp only [hst] at h
    exact listen_takes hx hst h
  | spreading seat id sent =>
    simp only [hst, Option.some.injEq] at h
    exact h ▸ spread_takes hx hst
  | gathering left failure =>
    simp only [hst] at h
    exact gather_takes hx hst h
  | finished outcome | abandoned => simp [hst] at h

end

omit [Digest] in
theorem timeUp_becomes (h : s.timeUp c = some s') :
    ∃ x, s.calls[c]? = some x ∧ x.isWaiting ∧ (x.deadline.wake 0).1.isSome ∧
      s.Becomes s' c (x.tickets.foldl Pool.detach s.pool)
        (x.ended (.finished (.error (.timeout x.deadline.delay)))) := by
  simp only [timeUp, Option.bind_eq_bind, Option.bind_eq_some_iff] at h
  obtain ⟨x, hx, h⟩ := h
  split at h
  · rename_i hwaiting
    split at h
    · rename_i u d hwake
      cases h
      exact ⟨x, hx, hwaiting, by rw [hwake]; rfl, .endCall hx s.pool { x with deadline := d } _⟩
    · cases h
  · cases h

omit [Digest] in
theorem abandon_becomes (h : s.abandon c = some s') : ∃ x, s.calls[c]? = some x ∧ x.isOpen ∧
      s.Becomes s' c (x.tickets.foldl Pool.detach s.pool) (x.ended .abandoned) := by
  simp only [abandon, Option.bind_eq_bind, Option.bind_eq_some_iff] at h
  obtain ⟨x, hx, h⟩ := h
  obtain ⟨hgo, h⟩ := Option.ite_none_right_eq_some.mp h
  cases h
  refine ⟨x, hx, ?_, .endCall hx s.pool x _⟩
  unfold Call.isWaiting at hgo
  unfold Call.isOpen
  cases hst : x.stage <;> simp_all

omit [Digest] in
theorem shutdownStep_frame (h : s.shutdownStep i = some s') :
    s'.calls = s.calls ∧ (s'.pool = s.pool ∨ s.pool.beginClose = some s'.pool) ∧ s'.delays = s.delays := by
  simp only [shutdownStep, Option.bind_eq_bind, Option.bind_eq_some_iff] at h
  obtain ⟨x, -, router, -, h⟩ := h
  split at h
  · split at h
    · cases h
      exact ⟨rfl, .inl rfl, map_setRouter fun _ ↦ rfl⟩
    · cases h
      exact ⟨rfl, .inl rfl, rfl⟩
  · split at h <;> cases h
    exact ⟨rfl, .inl rfl, rfl⟩
  · split at h
    · rename_i pool hpool
      cases h
      exact ⟨rfl, .inr hpool, rfl⟩
    · cases h
      exact ⟨rfl, .inl rfl, rfl⟩
  · split at h <;> cases h
    exact ⟨rfl, .inl rfl, rfl⟩
  · cases h

omit [Digest] in
theorem drainOver_frame (h : s.drainOver i = some s') :
    s'.calls = s.calls ∧ s'.pool = s.pool ∧ s'.delays = s.delays := by
  simp only [drainOver, Option.bind_eq_bind, Option.bind_eq_some_iff] at h
  obtain ⟨x, -, h⟩ := h
  split at h <;> cases h
  exact ⟨rfl, rfl, rfl⟩

end System

namespace System

inductive Proceeds [Digest] (setup : SystemSetup σ) (s : System σ) : Event → System σ → Prop
  | work {w pool} (hq : s.pool.workerStep setup.engine w = some pool) : Proceeds setup s (.work w) { s with pool }
  | monitor {w pool} (hq : s.pool.monitorStep w = some pool) : Proceeds setup s (.monitor w) { s with pool }
  | replay {w pool} (hq : s.pool.replayStep w = some pool) : Proceeds setup s (.replay w) { s with pool }
  | drain {id pool} (hq : s.pool.drainStep id = some pool) : Proceeds setup s (.drain id) { s with pool }
  | call {c x q y s'} (hx : s.calls[c]? = some x) (h : x.Step setup.toPoolSetup s q y) (hb : s.Becomes s' c q y) :
      Proceeds setup s (.call c) s'
  | timeUp {c x s'} (hx : s.calls[c]? = some x) (hw : x.isWaiting) (hwake : (x.deadline.wake 0).1.isSome)
      (hb : s.Becomes s' c (x.tickets.foldl Pool.detach s.pool)
        (x.ended (.finished (.error (.timeout x.deadline.delay))))) : Proceeds setup s (.timeUp c) s'
  | abandon {c x s'} (hx : s.calls[c]? = some x) (ho : x.isOpen)
      (hb : s.Becomes s' c (x.tickets.foldl Pool.detach s.pool) (x.ended .abandoned)) :
      Proceeds setup s (.abandon c) s'
  | beginClose {pool} (hq : s.pool.beginClose = some pool) : Proceeds setup s .beginClose { s with pool }
  | close {pool} (hq : s.pool.closeStep s.now = some pool) : Proceeds setup s .close { s with pool }
  | graceOver {pool} (hq : s.pool.graceOver s.now = some pool) : Proceeds setup s .graceOver { s with pool }
  | shutdown {i s'} (hcalls : s'.calls = s.calls) (hpool : s'.pool = s.pool) (hdelays : s'.delays = s.delays) :
      Proceeds setup s (.shutdown i) s'
  | shutdownClose {i s'} (hcalls : s'.calls = s.calls) (hq : s.pool.beginClose = some s'.pool)
      (hdelays : s'.delays = s.delays) : Proceeds setup s (.shutdown i) s'
  | drainOver {i s'} (hcalls : s'.calls = s.calls) (hpool : s'.pool = s.pool) (hdelays : s'.delays = s.delays) :
      Proceeds setup s (.drainOver i) s'
  | pass {ms} : Proceeds setup s (.pass ms) { s with now := s.now + ms }

theorem proceeds_of_step [Digest] {setup : SystemSetup σ} {s s' : System σ} {e : Event}
    (h : s.step setup e = some s') : Proceeds setup s e s' := by
  cases e with
  | work | monitor | replay | drain | beginClose | close | graceOver =>
    obtain ⟨pool, hq, rfl⟩ := Option.map_eq_some_iff.mp h
    constructor
    exact hq
  | call c =>
    cases hx : s.calls[c]? with
    | none => simp [System.step, callStep, hx] at h
    | some x =>
      obtain ⟨q, y, hstep, hb⟩ := callStep_takes hx h
      exact .call hx hstep hb
  | timeUp c =>
    obtain ⟨x, hx, hw, hwake, hb⟩ := timeUp_becomes h
    exact .timeUp hx hw hwake hb
  | abandon c =>
    obtain ⟨x, hx, ho, hb⟩ := abandon_becomes h
    exact .abandon hx ho hb
  | shutdown i =>
    obtain ⟨hcalls, hpool | hq, hdelays⟩ := shutdownStep_frame h
    · exact .shutdown hcalls hpool hdelays
    · exact .shutdownClose hcalls hq hdelays
  | drainOver i =>
    obtain ⟨hcalls, hpool, hdelays⟩ := drainOver_frame h
    exact .drainOver hcalls hpool hdelays
  | pass ms =>
    cases h
    exact .pass

end System

end AnalysisServer
