import AnalysisServer.Proofs.Pool.Numbers
import AnalysisServer.Proofs.Pool.Tickets

namespace AnalysisServer

open List

structure Seat.Balanced (s : Seat) (n : Nat) : Prop where
  le : s.inFlight ≤ n
  eq : s.state.isFinal = false → s.inFlight = n
  busy : s.state = .busy → 0 < s.inFlight
  free : s.state.isFree → s.inFlight = 0
  restarts : s.restarts = s.generation - 1
  worker : s.worker.isSome ↔ 0 < s.generation

namespace Seat

def Sound (s : Seat) (f : Seat → Seat) : Prop :=
  (f s).generation = s.generation ∧ ∀ n, s.Balanced n → (f s).Balanced n

variable {s : Seat} {n k : Nat}

theorem Balanced.to (h : s.Balanced n) {state : WorkerState} (hk : k ≤ n)
    (heq : state.isFinal = false → k = n) (hbusy : state = .busy → 0 < k)
    (hfree : state.isFree → k = 0) : { s with state, inFlight := k }.Balanced n :=
  ⟨hk, heq, hbusy, hfree, h.restarts, h.worker⟩

theorem sound_online (s : Seat) : s.Sound online := by
  unfold Sound online
  split
  · rename_i hs
    refine ⟨rfl, fun n h ↦ h.to h.le (fun _ ↦ h.eq (hs ▸ rfl)) ?_ ?_⟩
    · split <;> simp_all
    · split <;> simp_all [WorkerState.isFree]
  · exact ⟨rfl, fun n h ↦ h⟩

theorem sound_exited (s : Seat) : s.Sound exited :=
  ⟨rfl, fun n h ↦ h.to (Nat.zero_le n) (fun hs ↦ by cases hs) (fun hs ↦ by cases hs) fun _ ↦ rfl⟩

theorem Balanced.errored (h : s.Balanced n) (hle : k ≤ n) : { s with state := .errored, inFlight := k }.Balanced n :=
  h.to hle (fun hs ↦ by cases hs) (fun hs ↦ by cases hs) fun hs ↦ by cases hs

theorem sound_errored (s : Seat) : s.Sound fun s ↦ { s with state := .errored } :=
  ⟨rfl, fun _ h ↦ h.errored h.le⟩

theorem sound_crashed (s : Seat) : s.Sound crashed := by
  unfold Sound crashed
  split
  · exact ⟨rfl, fun _ h ↦ h⟩
  · exact ⟨rfl, fun n h ↦ h.errored n.zero_le⟩

theorem sound_fail (s : Seat) : s.Sound fail := by
  unfold Sound fail
  split
  · exact ⟨rfl, fun _ h ↦ h⟩
  · exact s.sound_errored

theorem sound_closing (hs : s.state.isFinal = false) : s.Sound fun s ↦ { s with state := .closing } :=
  ⟨rfl, fun _ h ↦ h.to h.le (fun _ ↦ h.eq hs) (fun h ↦ by cases h) fun h ↦ by cases h⟩

theorem Balanced.occupy (h : s.Balanced n) : s.occupy.Balanced (n + 1) := by
  refine ⟨Nat.succ_le_succ h.le, fun hs ↦ ?_, fun _ ↦ Nat.succ_pos _, fun hs ↦ ?_, h.restarts, h.worker⟩
  · have hfinal : s.state.isFinal = false := by
      simp only [Seat.occupy] at hs
      cases hstate : s.state <;> simp_all [WorkerState.isFinal, WorkerState.isFree]
    exact congrArg Nat.succ (h.eq hfinal)
  · simp only [Seat.occupy] at hs
    cases hstate : s.state <;> simp_all [WorkerState.isFree]

theorem Balanced.release (h : s.Balanced (n + 1)) : s.release.Balanced n := by
  have hle := h.le
  refine ⟨by simp only [Seat.release]; omega, fun hs ↦ ?_, fun hs ↦ ?_, fun hs ↦ ?_, h.restarts, h.worker⟩
  · have hfinal : s.state.isFinal = false := by
      simp only [Seat.release] at hs
      split at hs
      · rename_i hbusy
        rw [hbusy.2]
        rfl
      · exact hs
    have := h.eq hfinal
    simp only [Seat.release]
    omega
  · simp only [Seat.release] at hs ⊢
    split at hs
    · cases hs
    · rename_i hne
      have := not_and'.mp hne hs
      omega
  · simp only [Seat.release] at hs ⊢
    split at hs
    · rename_i hbusy
      exact hbusy.1
    · have := h.free hs
      omega

theorem Balanced.started (h : s.Balanced n) (w : WorkerId) : Seat.Balanced ⟨some w, s.generation + 1, .starting, 0,
      if s.worker.isSome then s.restarts + 1 else s.restarts⟩ 0 := by
  refine ⟨Nat.le_refl _, fun _ ↦ rfl, fun h ↦ (nomatch h), fun h ↦ (nomatch h), ?_, by simp⟩
  have hr := h.restarts
  split
  · rename_i hw
    have := h.worker.mp hw
    dsimp only
    omega
  · rename_i hw
    have := mt h.worker.mpr hw
    dsimp only
    omega

end Seat

namespace Pool

variable {σ : Type}

structure InOrder (p : Pool σ) : Prop where
  ids_lt {id : RequestId} : id ∈ p.ids → id < p.nextId
  ids_nodup : p.ids.Nodup
  replay {w : WorkerId} {x : Worker σ} {id : RequestId} : p.workers[w]? = some x →
    x.replay = some id → ∃ t ∈ p.tickets, t.id = id ∧ t.holder = .replay
  replay_unique {w v : WorkerId} {x y : Worker σ} {id : RequestId} : p.workers[w]? = some x →
    p.workers[v]? = some y → x.replay = some id → y.replay = some id → w = v
  seat {i : Nat} {s : Seat} : p.seats[i]? = some s → s.Balanced (p.pending i s.generation)
  ticket {t : Ticket} : t ∈ p.tickets → ∃ s, p.seats[t.seat]? = some s ∧ t.generation ≤ s.generation

/-- One pool comes after another, and meanwhile only the tickets in `mine` were read or given away by
their callers, and only those in `freed` were released. -/
structure Follows (mine freed : List RequestId) (p q : Pool σ) : Prop where
  order : q.InOrder
  nextId_le : p.nextId ≤ q.nextId
  ids {id : RequestId} : id ∈ q.ids → id ∈ p.ids ∨ id ∈ mine ∨ p.nextId ≤ id
  inHand {id : RequestId} {n : Nat} : id ∉ mine → p.InHand id n → q.InHand id n
  counts {t : Ticket} : t ∈ p.tickets → t.isPending → t.id ∉ freed → ∃ u ∈ q.tickets, t.Same u ∧ u.isPending
  seats {i : Nat} {s' : Seat} : q.seats[i]? = some s' → ∃ s, p.seats[i]? = some s ∧ s.generation ≤ s'.generation
  seatCount : q.seats.length = p.seats.length

variable {p q r : Pool σ} {mine freed : List RequestId} {w : WorkerId} {x : Worker σ}

namespace Follows

theorem refl (h : p.InOrder) : p.Follows mine freed p :=
  ⟨h, Nat.le_refl _, .inl, fun _ h ↦ h, fun ht hp _ ↦ ⟨_, ht, .refl _, hp⟩, fun hi ↦ ⟨_, hi, Nat.le_refl _⟩, rfl⟩

theorem trans (h : p.Follows mine freed q) (h' : q.Follows mine freed r) : p.Follows mine freed r := by
  refine ⟨h'.order, Nat.le_trans h.nextId_le h'.nextId_le, fun hid ↦ ?_,
    fun hm hh ↦ h'.inHand hm (h.inHand hm hh), fun ht hp ho ↦ ?_, fun hi ↦ ?_,
    h'.seatCount.trans h.seatCount⟩
  · obtain hid | hm | hle := h'.ids hid
    · exact h.ids hid
    · exact .inr (.inl hm)
    · exact .inr (.inr (Nat.le_trans h.nextId_le hle))
  · obtain ⟨u, hu, hsame, hp⟩ := h.counts ht hp ho
    obtain ⟨v, hv, hsame', hp⟩ := h'.counts hu hp (hsame.id ▸ ho)
    exact ⟨v, hv, hsame.trans hsame', hp⟩
  · obtain ⟨s, hs, hle⟩ := h'.seats hi
    obtain ⟨s₀, hs₀, hle₀⟩ := h.seats hs
    exact ⟨s₀, hs₀, Nat.le_trans hle₀ hle⟩

theorem of_workers (h : p.InOrder) (ht : q.tickets = p.tickets) (hs : q.seats = p.seats) (hn : q.nextId = p.nextId)
    (hw : ∀ (w : WorkerId) (y : Worker σ) (id : RequestId), q.workers[w]? = some y →
      y.replay = some id → ∃ x : Worker σ, p.workers[w]? = some x ∧ x.replay = some id) :
    p.Follows mine freed q := by
  have hids : q.ids = p.ids := congrArg (List.map Ticket.id) ht
  have hpending (i g : Nat) : q.pending i g = p.pending i g := congrArg (List.countP _) ht
  have horder : q.InOrder := by
    refine ⟨fun hid ↦ ?_, hids ▸ h.ids_nodup, fun hy hr ↦ ?_, fun hy hz hr hr' ↦ ?_, fun hi ↦ ?_, fun ht' ↦ ?_⟩
    · rw [hn]
      exact h.ids_lt (hids ▸ hid)
    · obtain ⟨x, hx, hr⟩ := hw _ _ _ hy hr
      exact ht ▸ h.replay hx hr
    · obtain ⟨x, hx, hr⟩ := hw _ _ _ hy hr
      obtain ⟨x', hx', hr'⟩ := hw _ _ _ hz hr'
      exact h.replay_unique hx hx' hr hr'
    · rw [hpending]
      exact h.seat (hs ▸ hi)
    · rw [hs]
      exact h.ticket (ht ▸ ht')
  refine ⟨horder, Nat.le_of_eq hn.symm, fun hid ↦ .inl (hids ▸ hid), fun _ ⟨t, hin, hh⟩ ↦ ?_,
    fun hin hp _ ↦ ?_, fun hi ↦ ⟨_, hs ▸ hi, Nat.le_refl _⟩, congrArg List.length hs⟩
  · exact ⟨t, ht ▸ hin, hh⟩
  · exact ⟨_, ht ▸ hin, .refl _, hp⟩

theorem setWorker (h : p.Follows mine freed q) (w : WorkerId) {f : Worker σ → Worker σ}
    (hf : ∀ x, (f x).replay = x.replay) : p.Follows mine freed (q.setWorker w f) := by
  refine h.trans (of_workers h.order rfl rfl rfl fun v y id hy hr ↦ ?_)
  simp only [Pool.setWorker, List.getElem?_modify] at hy
  obtain ⟨x, hx, rfl⟩ := Option.map_eq_some_iff.mp hy
  refine ⟨x, hx, ?_⟩
  split at hr
  · rwa [← hf x]
  · exact hr

section Tickets

variable {id : RequestId} {f : Ticket → Ticket} {t u : Ticket}

section

variable (h : p.Follows mine freed q)

include h

theorem setTicket (hf : ∀ t : Ticket, t.Same (f t)) (hp : ∀ t ∈ q.tickets, t.id = id → (f t).isPending = t.isPending)
    (hr : ∀ t ∈ q.tickets, t.id = id → t.holder = .replay → (f t).holder = .replay)
    (hh : id ∈ mine ∨ ∀ t ∈ q.tickets, t.id = id → t.holder = .caller →
      (f t).holder = .caller ∧ (f t).read = t.read) : p.Follows mine freed (q.setTicket id f) := by
  have hids : (q.setTicket id f).ids = q.ids := ids_setTicket hf
  have hmem {t} (ht : t ∈ q.tickets) :
      (if t.id = id then f t else t) ∈ (q.setTicket id f).tickets := mem_setTicket.mpr ⟨t, ht, rfl⟩
  have hq := h.order
  refine h.trans ⟨⟨fun hid ↦ hq.ids_lt (hids ▸ hid), hids ▸ hq.ids_nodup, fun hx hid ↦ ?_,
    hq.replay_unique, fun hi ↦ ?_, fun ht ↦ ?_⟩, Nat.le_refl _, fun hid ↦ .inl (hids ▸ hid),
    fun hm ⟨t, ht, hid, hc, hread⟩ ↦ ?_, fun {t} ht hpend ho ↦ ?_,
    fun hi ↦ ⟨_, hi, Nat.le_refl _⟩, rfl⟩
  · obtain ⟨t, ht, hid, hholder⟩ := hq.replay hx hid
    refine ⟨_, hmem ht, (same_setTicket hf id t).id.trans hid, ?_⟩
    split
    · rename_i heq
      exact hr t ht heq hholder
    · exact hholder
  · rw [pending_setTicket hf hp]
    exact hq.seat hi
  · obtain ⟨t₀, ht₀, rfl⟩ := mem_setTicket.mp ht
    have hsame := same_setTicket hf id t₀
    rw [hsame.seat, hsame.generation]
    exact hq.ticket ht₀
  · refine ⟨_, hmem ht, (same_setTicket hf id t).id.trans hid, ?_⟩
    split
    · rename_i heq
      have hnot : id ∉ mine := fun h ↦ hm (hid ▸ heq ▸ h)
      obtain ⟨hc', hread'⟩ := hh.resolve_left hnot t ht heq hc
      exact ⟨hc', hread'.trans hread⟩
    · exact ⟨hc, hread⟩
  · refine ⟨_, hmem ht, same_setTicket hf id t, ?_⟩
    split
    · rename_i heq
      rwa [hp t ht heq]
    · exact hpend

theorem write (id : RequestId) (r : Reply) : p.Follows mine freed (q.write id r) :=
  h.setTicket (fun _ ↦ ⟨rfl, rfl, rfl⟩) (fun _ _ _ ↦ rfl) (fun _ _ _ h ↦ h) (.inr fun _ _ _ h ↦ ⟨h, rfl⟩)

theorem complete (id : RequestId) : p.Follows mine freed (q.complete id) :=
  h.setTicket (fun _ ↦ ⟨rfl, rfl, rfl⟩) (fun _ _ _ ↦ rfl) (fun _ _ _ h ↦ h) (.inr fun _ _ _ h ↦ ⟨h, rfl⟩)

theorem completeAll (ids : List RequestId) : p.Follows mine freed (ids.foldl Pool.complete q) :=
  foldlRecOn (motive := p.Follows mine freed) ids _ h fun _ h id _ ↦ h.complete id

theorem markRead (hid : id ∈ mine ∨ ∀ t ∈ q.tickets, t.id = id → t.holder ≠ .caller) :
    p.Follows mine freed (q.markRead id) := by
  refine h.setTicket (fun _ ↦ ⟨rfl, rfl, rfl⟩) (fun _ _ _ ↦ rfl) (fun _ _ _ h ↦ h) ?_
  exact hid.imp_right fun hid t ht heq hc ↦ absurd hc (hid t ht heq)

theorem detach (hid : id ∈ mine) : p.Follows mine freed (q.detach id) := by
  refine h.setTicket (fun t ↦ ?_) (fun t _ _ ↦ ?_) (fun t _ _ hr ↦ ?_) (.inl hid)
  · split <;> exact ⟨rfl, rfl, rfl⟩
  · split
    · rename_i hc
      simp [Ticket.isPending, hc]
    · rfl
  · rw [if_neg (by rw [hr]; simp)]
    exact hr

theorem detachAll {ids : List RequestId} (hids : ∀ id ∈ ids, id ∈ mine) :
    p.Follows mine freed (ids.foldl Pool.detach q) :=
  foldlRecOn (motive := p.Follows mine freed) ids _ h fun _ h id hid ↦ h.detach (hids id hid)

end

end Tickets

section Seats

variable {i g : Nat} {f : Seat → Seat}

theorem setSeat (h : p.Follows mine freed q) (hf : ∀ s, q.seats[i]? = some s → s.Sound f) :
    p.Follows mine freed (q.setSeat i f) := by
  have hq := h.order
  have hseat {j : Nat} {s : Seat} (hs : q.seats[j]? = some s) :
      ∃ s', (q.setSeat i f).seats[j]? = some s' ∧ s'.generation = s.generation := by
    simp only [Pool.setSeat, List.getElem?_modify, hs]
    by_cases hij : i = j
    · subst hij
      simp [(hf s hs).1]
    · simp [hij]
  refine h.trans ⟨⟨hq.ids_lt, hq.ids_nodup, hq.replay, hq.replay_unique, fun {j s'} hs' ↦ ?_,
    fun ht ↦ ?_⟩, Nat.le_refl _, .inl, fun _ h ↦ h, fun ht hp _ ↦ ⟨_, ht, .refl _, hp⟩, fun hs' ↦ ?_,
    length_modify ..⟩
  · simp only [Pool.setSeat, List.getElem?_modify] at hs'
    obtain ⟨s, hs, rfl⟩ := Option.map_eq_some_iff.mp hs'
    split
    · rename_i hij
      subst hij
      obtain ⟨hgen, hsound⟩ := hf s hs
      rw [hgen]
      exact hsound _ (hq.seat hs)
    · exact hq.seat hs
  · obtain ⟨s, hs, hle⟩ := hq.ticket ht
    obtain ⟨s', hs', hgen⟩ := hseat hs
    exact ⟨s', hs', hgen ▸ hle⟩
  · simp only [Pool.setSeat, List.getElem?_modify] at hs'
    obtain ⟨s, hs, rfl⟩ := Option.map_eq_some_iff.mp hs'
    refine ⟨s, hs, ?_⟩
    split
    · rename_i hij
      subst hij
      exact Nat.le_of_eq (hf s hs).1.symm
    · exact Nat.le_refl _

theorem update (h : p.Follows mine freed q) (i g : Nat) (hf : ∀ s : Seat, s.Sound f) :
    p.Follows mine freed (q.update i g f) := by
  refine h.setSeat fun s _ ↦ ?_
  unfold Seat.Sound
  dsimp only
  split
  · exact hf s
  · exact ⟨rfl, fun _ h ↦ h⟩

section Release

variable {t u : Ticket}

theorem same_released (t : Ticket) : t.Same { t with holder := .released } := ⟨rfl, rfl, rfl⟩

theorem mem_hold_of_ne {h : Holder} (hu : u ∈ q.tickets) (hne : u.id ≠ t.id) : u ∈ (q.hold t.id h).tickets :=
  mem_setTicket.mpr ⟨u, hu, if_neg hne⟩

theorem order_release (hq : q.InOrder) (hu : u ∈ q.tickets) (hsame : t.Same u) (hp : u.isPending) :
    (q.release t).InOrder := by
  have hids : (q.hold t.id .released).ids = q.ids := ids_setTicket same_released
  have hcount (j k : Nat) : q.pending j k =
      (q.hold t.id .released).pending j k + (if t.seat = j ∧ t.generation = k then 1 else 0) := by
    have := pending_hold hq.ids_nodup hu hp j k
    rwa [hsame.id, hsame.seat, hsame.generation] at this
  refine ⟨fun hid ↦ hq.ids_lt (hids ▸ hid), hids ▸ hq.ids_nodup, fun hx hr ↦ ?_,
    hq.replay_unique, fun {j s'} hs' ↦ ?_, fun {v'} hv' ↦ ?_⟩
  · obtain ⟨v, hv, hid, hholder⟩ := hq.replay hx hr
    refine ⟨v, mem_hold_of_ne hv fun heq ↦ ?_, hid, hholder⟩
    rw [← ticket_unique hq.ids_nodup hv hu (heq.trans hsame.id.symm), Ticket.isPending, hholder] at hp
    cases hp
  · simp only [Pool.release, Pool.update, Pool.setSeat, List.getElem?_modify] at hs'
    obtain ⟨s, hs, rfl⟩ := Option.map_eq_some_iff.mp hs'
    have hbalanced := hq.seat hs
    split
    · rename_i hseat
      split
      · rename_i hgen
        rw [hcount, if_pos ⟨hseat, hgen.symm⟩] at hbalanced
        exact hbalanced.release
      · rename_i hgen
        rwa [hcount, if_neg fun h ↦ hgen h.2.symm] at hbalanced
    · rename_i hseat
      rwa [hcount, if_neg fun h ↦ hseat h.1] at hbalanced
  · obtain ⟨v, hv, rfl⟩ := mem_setTicket.mp hv'
    have hv'' := same_setTicket same_released t.id v
    obtain ⟨s, hs, hle⟩ := hq.ticket hv
    rw [hv''.seat, hv''.generation]
    simp only [Pool.release, Pool.update, Pool.setSeat, List.getElem?_modify]
    refine ⟨_, Option.map_eq_some_iff.mpr ⟨s, hs, rfl⟩, ?_⟩
    split
    · split <;> exact hle
    · exact hle

theorem release (h : p.Follows mine freed q) (hu : u ∈ q.tickets) (hsame : t.Same u)
    (hp : u.isPending) (ho : t.id ∈ freed) (hm : t.id ∈ mine ∨ u.holder ≠ .caller) :
    p.Follows mine freed (q.release t) := by
  have hids : (q.hold t.id .released).ids = q.ids := ids_setTicket same_released
  refine h.trans ⟨order_release h.order hu hsame hp, Nat.le_refl _, fun hid ↦ .inl (hids ▸ hid),
    fun hnot ⟨v, hv, hid, hc, hread⟩ ↦ ?_, fun {v} hv hvp hvo ↦ ?_, fun hs' ↦ ?_,
    length_modify ..⟩
  · refine ⟨v, mem_hold_of_ne hv fun heq ↦ ?_, hid, hc, hread⟩
    obtain hmine | hfree := hm
    · exact hnot (hid ▸ heq ▸ hmine)
    · rw [← ticket_unique h.order.ids_nodup hv hu (heq.trans hsame.id.symm)] at hfree
      exact hfree hc
  · exact ⟨v, mem_hold_of_ne hv fun heq ↦ hvo (heq ▸ ho), .refl v, hvp⟩
  · simp only [Pool.release, Pool.update, Pool.setSeat, List.getElem?_modify] at hs'
    obtain ⟨s, hs, rfl⟩ := Option.map_eq_some_iff.mp hs'
    refine ⟨s, hs, ?_⟩
    split
    · split <;> exact Nat.le_refl _
    · exact Nat.le_refl _

end Release

theorem forgetReplay (h : p.Follows mine freed q) {id : RequestId}
    (hx : q.workers[w]? = some x) (hr : x.replay = some id) :
    p.Follows mine freed (q.forgetReplay w id) := by
  have hq := h.order
  obtain ⟨t, ht, rfl, hholder⟩ := hq.replay hx hr
  have hids : (q.hold t.id .released).ids = q.ids := ids_setTicket same_released
  have hnot {u} (hu : u ∈ q.tickets) (hne : u.holder ≠ .replay) : u.id ≠ t.id := by
    intro heq
    rw [ticket_unique hq.ids_nodup hu ht heq] at hne
    exact hne hholder
  -- whoever else is watched for a replay is watched for another one
  have hback {v y' id} (hy : (q.forgetReplay w t.id).workers[v]? = some y') (hr' : y'.replay = some id) :
      ∃ y, q.workers[v]? = some y ∧ y.replay = some id ∧ v ≠ w := by
    simp only [Pool.forgetReplay, Pool.setWorker, List.getElem?_modify] at hy
    obtain ⟨y, hy', rfl⟩ := Option.map_eq_some_iff.mp hy
    split at hr'
    · cases hr'
    · rename_i hne
      exact ⟨y, hy', hr', Ne.symm hne⟩
  refine h.trans ⟨⟨fun hid ↦ hq.ids_lt (hids ▸ hid), hids ▸ hq.ids_nodup, fun hy hr' ↦ ?_,
    fun hy hz hr' hr'' ↦ ?_, fun hs ↦ ?_, fun hu ↦ ?_⟩, Nat.le_refl _, fun hid ↦ .inl (hids ▸ hid),
    fun _ hin ↦ ?_, fun {u} hu hup _ ↦ ?_, fun hi ↦ ⟨_, hi, Nat.le_refl _⟩, rfl⟩
  · obtain ⟨y, hy, hr', hne⟩ := hback hy hr'
    obtain ⟨u, hu, hid, hholder'⟩ := hq.replay hy hr'
    refine ⟨u, mem_hold_of_ne hu fun heq ↦ hne ?_, hid, hholder'⟩
    exact hq.replay_unique hy hx hr' (hr.trans (congrArg some (heq.symm.trans hid)))
  · obtain ⟨y, hy, hr', -⟩ := hback hy hr'
    obtain ⟨z, hz, hr'', -⟩ := hback hz hr''
    exact hq.replay_unique hy hz hr' hr''
  · show Seat.Balanced _ ((q.hold t.id .released).pending _ _)
    rw [hold, pending_setTicket same_released]
    · exact hq.seat hs
    · intro u hu heq
      rw [ticket_unique hq.ids_nodup hu ht heq, Ticket.isPending, Ticket.isPending, hholder]
      rfl
  · obtain ⟨v, hv, rfl⟩ := mem_setTicket.mp hu
    have hv' := same_setTicket same_released t.id v
    rw [hv'.seat, hv'.generation]
    exact hq.ticket hv
  · obtain ⟨u, hu, hid, hc, hread⟩ := hin
    exact ⟨u, mem_hold_of_ne hu (hnot hu (by rw [hc]; simp)), hid, hc, hread⟩
  · refine ⟨u, mem_hold_of_ne hu (hnot hu fun hr' ↦ ?_), .refl u, hup⟩
    rw [Ticket.isPending, hr'] at hup
    cases hup

theorem disconnect (h : p.Follows mine freed q) (s : Seat) : p.Follows mine freed (q.disconnect s) := by
  unfold Pool.disconnect
  split
  · exact h.setWorker _ fun _ ↦ rfl
  · exact h

end Seats

end Follows

section Start

variable (setup : PoolSetup σ) {i : Nat} {s : Seat}

theorem InOrder.pending_later (h : p.InOrder) (hi : p.seats[i]? = some s) {g : Nat}
    (hg : s.generation < g) : p.pending i g = 0 := by
  refine countP_eq_zero.mpr fun t ht hc ↦ ?_
  obtain ⟨-, rfl, rfl⟩ := Ticket.countsFor_iff.mp hc
  obtain ⟨s', hs', hle⟩ := h.ticket ht
  cases hi.symm.trans hs'
  omega

theorem Follows.addWorker (h : p.Follows mine freed q) (hi : q.seats[i]? = some s) {seat : Seat}
    (hg : seat.generation = s.generation + 1) (hb : seat.Balanced 0)
    {ts : List Ticket} {n : RequestId} (hn : q.nextId ≤ n) (hnodup : (ts.map Ticket.id).Nodup)
    (hts : ∀ t ∈ ts, t.id = q.nextId ∧ t.id < n ∧ t.seat = i ∧ t.generation = s.generation + 1 ∧ t.holder = .replay)
    (hx : ∀ id, x.replay = some id → ∃ t ∈ ts, t.id = id) : p.Follows mine freed { q with
      workers := q.workers ++ [x], tickets := q.tickets ++ ts, nextId := n, seats := q.seats.set i seat } := by
  have hq := h.order
  have hlt := lt_of_getElem? hi
  have hcount (j k : Nat) : (q.tickets ++ ts).countP (·.countsFor j k) = q.pending j k := by
    have hnone : ts.countP (·.countsFor j k) = 0 := by
      refine countP_eq_zero.mpr fun t ht hc ↦ ?_
      have hp := (Ticket.countsFor_iff.mp hc).1
      rw [Ticket.isPending, (hts t ht).2.2.2.2] at hp
      cases hp
    rw [countP_append, hnone]
    rfl
  have hmem {t : Ticket} (ht : t ∈ q.tickets) : t ∈ q.tickets ++ ts := mem_append_left _ ht
  refine h.trans ⟨⟨fun {id} hid ↦ ?_, ?_, fun hy hr ↦ ?_, fun {w v y z id} hy hz hr hr' ↦ ?_,
    fun {j s'} hs' ↦ ?_, fun {t} ht ↦ ?_⟩, hn, fun {id} hid ↦ ?_,
    fun _ hin ↦ ?_, fun ht hp _ ↦ ⟨_, hmem ht, .refl _, hp⟩, fun hs' ↦ ?_,
    length_set⟩
  · obtain ⟨t, ht, rfl⟩ := mem_ids.mp hid
    obtain ht | ht := mem_append.mp ht
    · exact Nat.lt_of_lt_of_le (hq.ids_lt (mem_ids.mpr ⟨t, ht, rfl⟩)) hn
    · exact (hts t ht).2.1
  · simp only [Pool.ids, map_append]
    refine nodup_append.mpr ⟨hq.ids_nodup, hnodup, fun a ha b hb hab ↦ ?_⟩
    obtain ⟨t, ht, rfl⟩ := mem_map.mp hb
    have := hq.ids_lt (hab ▸ ha)
    rw [(hts t ht).1] at this
    exact Nat.lt_irrefl _ this
  · obtain hy | ⟨-, rfl⟩ := getElem?_concat_cases hy
    · obtain ⟨t, ht, hid, hholder⟩ := hq.replay hy hr
      exact ⟨t, hmem ht, hid, hholder⟩
    · obtain ⟨t, ht, hid⟩ := hx _ hr
      exact ⟨t, mem_append_right _ ht, hid, (hts t ht).2.2.2.2⟩
  · have hold {w : WorkerId} {y : Worker σ} (hy : q.workers[w]? = some y) (hr : y.replay = some id)
        (hr' : x.replay = some id) : False := by
      obtain ⟨t, ht, rfl, -⟩ := hq.replay hy hr
      obtain ⟨u, hu, hid⟩ := hx _ hr'
      have hlt := hq.ids_lt (mem_ids.mpr ⟨t, ht, rfl⟩)
      rw [← hid, (hts u hu).1] at hlt
      exact Nat.lt_irrefl _ hlt
    obtain hy' | ⟨rfl, rfl⟩ := getElem?_concat_cases hy <;>
      obtain hz' | ⟨rfl, rfl⟩ := getElem?_concat_cases hz
    · exact hq.replay_unique hy' hz' hr hr'
    · exact (hold hy' hr hr').elim
    · exact (hold hz' hr' hr).elim
    · rfl
  · show s'.Balanced (List.countP _ _)
    rw [hcount]
    obtain ⟨rfl, rfl⟩ | ⟨-, hs'⟩ := getElem?_set_cases hi hs'
    · rwa [hq.pending_later hi (by omega)]
    · exact hq.seat hs'
  · obtain ht | ht := mem_append.mp ht
    · obtain ⟨s', hs', hle⟩ := hq.ticket ht
      by_cases hj : i = t.seat
      · subst hj
        cases hi.symm.trans hs'
        exact ⟨seat, List.getElem?_set_self hlt, by omega⟩
      · exact ⟨s', (List.getElem?_set_ne hj).trans hs', hle⟩
    · obtain ⟨-, -, rfl, hg', -⟩ := hts _ ht
      exact ⟨seat, List.getElem?_set_self hlt, by omega⟩
  · obtain ⟨t, ht, rfl⟩ := mem_ids.mp hid
    obtain ht | ht := mem_append.mp ht
    · exact .inl (mem_ids.mpr ⟨t, ht, rfl⟩)
    · exact .inr (.inr (Nat.le_of_eq (hts t ht).1.symm))
  · obtain ⟨t, ht, hh⟩ := hin
    exact ⟨t, hmem ht, hh⟩
  · obtain ⟨rfl, rfl⟩ | ⟨-, hs'⟩ := getElem?_set_cases hi hs'
    · exact ⟨s, hi, by omega⟩
    · exact ⟨_, hs', Nat.le_refl _⟩

theorem Follows.startWorker (h : p.Follows mine freed q) : p.Follows mine freed (q.startWorker setup i) := by
  unfold Pool.startWorker
  split
  · exact h
  · rename_i s hs
    have hd := h.disconnect s
    have hb := (h.order.seat hs).started q.workers.length
    have hseat : (q.disconnect s).seats[i]? = some s := by
      unfold Pool.disconnect
      split <;> exact hs
    have hnext : (q.disconnect s).nextId = q.nextId := by
      unfold Pool.disconnect
      split <;> rfl
    unfold replayFor
    split
    · refine hd.addWorker hseat rfl hb (by rw [hnext]; exact Nat.le_succ _) (nodup_singleton _) ?_ ?_
      · intro t ht
        cases mem_singleton.mp ht
        exact ⟨hnext.symm, Nat.lt_succ_self _, rfl, rfl, rfl⟩
      · intro id hid
        exact ⟨_, mem_singleton_self _, Option.some.inj hid⟩
    · exact hd.addWorker hseat rfl hb (Nat.le_of_eq hnext) nodup_nil (by simp) (by simp)

end Start

section Send

variable {i : Nat} {s : Seat} {id : RequestId} {m : Message}

theorem Follows.addTicket (h : p.Follows mine freed q) (hi : q.seats[i]? = some s) (hid : id ∈ mine)
    (hlt : id < q.nextId) (hnew : id ∉ q.ids) :
    p.Follows mine freed { q.setSeat i Seat.occupy with
      tickets := q.tickets ++ [{ id, seat := i, generation := s.generation, holder := .caller }] } := by
  have hq := h.order
  have hmem {t : Ticket} {ts : List Ticket} (ht : t ∈ q.tickets) : t ∈ q.tickets ++ ts :=
    mem_append_left _ ht
  have hkeep {j : Nat} {s' : Seat} (hs' : q.seats[j]? = some s') :
      ∃ s'', (q.seats.set i s.occupy)[j]? = some s'' ∧ s''.generation = s'.generation := by
    rw [← modify_eq_set hi, List.getElem?_modify, hs']
    refine ⟨_, rfl, ?_⟩
    split <;> rfl
  rw [Pool.setSeat, modify_eq_set hi]
  refine h.trans ⟨⟨fun {id'} hid' ↦ ?_, ?_, fun hx hr ↦ ?_, hq.replay_unique, fun {j s'} hs' ↦ ?_,
    fun {t} ht ↦ ?_⟩, Nat.le_refl _, fun {id'} hid' ↦ ?_, fun _ hin ↦ ?_,
    fun ht hp _ ↦ ⟨_, hmem ht, .refl _, hp⟩, fun hs' ↦ ?_, length_set⟩
  · simp only [Pool.ids, map_append, mem_append, map_cons, map_nil, mem_singleton] at hid'
    obtain hid' | rfl := hid'
    · exact hq.ids_lt hid'
    · exact hlt
  · simp only [Pool.ids, map_append, map_cons, map_nil]
    refine nodup_append.mpr ⟨hq.ids_nodup, nodup_singleton _, fun a ha b hb hab ↦ ?_⟩
    rw [mem_singleton.mp hb] at hab
    exact hnew (hab ▸ ha)
  · obtain ⟨t, ht, hh⟩ := hq.replay hx hr
    exact ⟨t, hmem ht, hh⟩
  · show Seat.Balanced _ (List.countP _ (q.tickets ++ _))
    rw [countP_append]
    obtain ⟨rfl, rfl⟩ | ⟨hij, hs'⟩ := getElem?_set_cases hi hs'
    · have hone : (Ticket.countsFor { id, seat := j, generation := s.generation, holder := .caller } j
          s.generation) = true := by
        simp [Ticket.countsFor, Ticket.isPending]
      have hgen : s.occupy.generation = s.generation := rfl
      rw [hgen, countP_singleton, hone]
      exact (hq.seat hi).occupy
    · have hnone : (Ticket.countsFor { id, seat := i, generation := s.generation, holder := .caller } j
          s'.generation) = false := by
        simp [Ticket.countsFor, hij.symm]
      rw [countP_singleton, hnone]
      exact hq.seat hs'
  · obtain ht | ht := mem_append.mp ht
    · obtain ⟨s', hs', hle⟩ := hq.ticket ht
      obtain ⟨s'', hs'', hgen⟩ := hkeep hs'
      exact ⟨s'', hs'', hgen ▸ hle⟩
    · cases mem_singleton.mp ht
      obtain ⟨s'', hs'', hgen⟩ := hkeep hi
      exact ⟨s'', hs'', Nat.le_of_eq hgen.symm⟩
  · simp only [Pool.ids, map_append, mem_append, map_cons, map_nil, mem_singleton] at hid'
    obtain hid' | rfl := hid'
    · exact .inl hid'
    · exact .inr (.inl hid)
  · obtain ⟨t, ht, hh⟩ := hin
    exact ⟨t, hmem ht, hh⟩
  · obtain ⟨rfl, rfl⟩ | ⟨-, hs'⟩ := getElem?_set_cases hi hs'
    · exact ⟨s, hi, Nat.le_refl _⟩
    · exact ⟨_, hs', Nat.le_refl _⟩

theorem Follows.give (h : p.Follows mine freed q) (hi : q.seats[i]? = some s) (hx : q.workers[w]? = some x)
    (hid : id ∈ mine) (hlt : id < q.nextId) (hnew : id ∉ q.ids) :
    p.Follows mine freed (q.give i s w x id m) ∧ (q.give i s w x id m).InHand id 0 := by
  have hput := h.setWorker w (f := fun x ↦ { x with inbox := x.inbox ++ [m] }) fun _ ↦ rfl
  have hadd := hput.addTicket hi hid hlt hnew
  rw [Pool.setSeat, Pool.setWorker, modify_eq_set hi, modify_eq_set hx] at hadd
  exact ⟨hadd, _, mem_append_right _ (mem_singleton_self _), rfl, rfl, rfl⟩

theorem Follows.enqueue (setup : PoolSetup σ) {request : Request} {streaming : Bool}
    {result : Except AnalysisError Unit} (h : p.Follows mine freed q) (hid : id ∈ mine)
    (hlt : id < q.nextId) (hnew : id ∉ q.ids) (he : q.enqueue setup i id request streaming = (result, r)) :
    p.Follows mine freed r ∧ (result = .ok () → r.InHand id 0) := by
  cases enqueued he with
  | nowhere => exact ⟨h, nofun⟩
  | given hi hf hw hx hl => exact (h.give hi hx hid hlt hnew).imp_right fun hin _ ↦ hin
  | started hi hu hi' hw hx =>
    -- a new worker may use up a number, but not the one of the request
    have hstep : q.Follows [] [] (q.startWorker setup i) := (Follows.refl h.order).startWorker setup
    refine ((h.startWorker setup).give hi' hx hid (Nat.lt_of_lt_of_le hlt hstep.nextId_le) fun hmem ↦ ?_).imp_right
      fun hin _ ↦ hin
    obtain hmem | hmem | hle := hstep.ids hmem
    · exact hnew hmem
    · cases hmem
    · exact Nat.not_lt.mpr hle hlt

end Send

end Pool

end AnalysisServer
