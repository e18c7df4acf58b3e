import AnalysisServer.Proofs.Pool.Accounts

namespace AnalysisServer.Pool

variable {σ : Type} {p q r : Pool σ} {mine freed : List RequestId} {w : WorkerId} {x : Worker σ} {id : RequestId}

namespace Follows

theorem congr (h : p.Follows mine freed q) (ht : r.tickets = q.tickets) (hs : r.seats = q.seats)
    (hn : r.nextId = q.nextId) (hw : r.workers = q.workers) : p.Follows mine freed r :=
  h.trans (of_workers h.order ht hs hn fun _ y _ hy hr ↦ ⟨y, hw ▸ hy, hr⟩)

theorem workerStep [Digest] {engine : RuleEngine σ} (h : p.InOrder)
    (hq : p.workerStep engine w = some q) : p.Follows mine freed q := by
  obtain ⟨x, hx, said, done, y, disk, -, ha, rfl⟩ := worked_of_workerStep hq
  have htold : p.Follows mine freed (p.told (said) done) := by
    refine completeAll ?_ done
    exact List.foldlRecOn (motive := p.Follows mine freed) _ _ (.refl h) fun _ h r _ ↦ h.write r.1 r.2
  have hreplay : y.replay = x.replay := by cases ha <;> rfl
  have hframe := p.told_eq (said) done
  refine htold.trans (of_workers htold.order rfl ?_ ?_ fun v z id hz hr ↦ ?_)
  · rw [hframe]
  · rw [hframe]
  · rw [hframe]
    obtain ⟨rfl, rfl⟩ | ⟨-, hz⟩ := getElem?_set_cases hx hz
    · exact ⟨x, hx, hreplay ▸ hr⟩
    · exact ⟨z, hz, hr⟩

theorem monitorStep (h : p.InOrder) (hq : p.monitorStep w = some q) : p.Follows mine freed q := by
  have hp : p.Follows mine freed p := .refl h
  simp only [Pool.monitorStep, Option.bind_eq_bind, Option.bind_eq_some_iff] at hq
  obtain ⟨x, -, hq⟩ := hq
  have hmonitor {q} (hq : p.Follows mine freed q) (m : Monitor) :
      p.Follows mine freed (q.setMonitor w m) := hq.setWorker w fun _ ↦ rfl
  split at hq
  · cases hq
  · split at hq
    · cases hq
    · cases hq
      split
      · exact hmonitor hp _
      · exact hmonitor (hp.update _ _ Seat.sound_crashed) _
  · rename_i note rest _ _
    have hread : p.Follows mine freed (p.setWorker w fun x ↦ { x with notes := rest }) :=
      hp.setWorker w fun _ ↦ rfl
    split at hq
    · split at hq <;> cases hq
      · exact hread.update _ _ Seat.sound_online
      · exact hmonitor (hread.update _ _ Seat.sound_exited) _
    · cases hq
      exact hmonitor hp _

theorem replayStep (h : p.InOrder) (hq : p.replayStep w = some q) : p.Follows mine freed q := by
  have hp : p.Follows mine freed p := .refl h
  simp only [Pool.replayStep, Option.bind_eq_bind, Option.bind_eq_some_iff] at hq
  obtain ⟨x, hx, id, hid, t, ht, hq⟩ := hq
  have hread : p.Follows mine freed (p.markRead id) := by
    refine hp.markRead (.inr fun u hu heq hc ↦ ?_)
    obtain ⟨v, hv, hvid, hholder⟩ := h.replay hx hid
    rw [ticket_unique h.ids_nodup hu hv (heq.trans hvid.symm), hholder] at hc
    cases hc
  split at hq
  · cases hq
    exact hread
  · cases hq
    exact hread.forgetReplay hx hid
  · cases hq
    exact (hread.forgetReplay hx hid).update _ _ Seat.sound_fail
  · split at hq <;> cases hq
    exact hp.forgetReplay hx hid

end Follows

theorem mem_markRead {t : Ticket} (ht : t ∈ p.tickets) :
    ∃ u ∈ (p.markRead t.id).tickets, t.Same u ∧ u.holder = t.holder :=
  ⟨_, mem_setTicket.mpr ⟨t, ht, if_pos rfl⟩, ⟨rfl, rfl, rfl⟩, rfl⟩

theorem Follows.drainStep (h : p.InOrder) (hq : p.drainStep id = some q) : p.Follows mine p.settled q := by
  have hp : p.Follows mine p.settled p := .refl h
  simp only [Pool.drainStep, Option.bind_eq_bind, Option.bind_eq_some_iff] at hq
  obtain ⟨t, ht, hq⟩ := hq
  obtain ⟨htm, rfl⟩ := ticket?_eq_some ht
  split at hq
  · rename_i hdrain
    have hpending : t.isPending := by simp [Ticket.isPending, hdrain]
    have hread : p.Follows mine p.settled (p.markRead t.id) := by
      refine hp.markRead (.inr fun u hu heq hc ↦ ?_)
      rw [ticket_unique h.ids_nodup hu htm heq, hdrain] at hc
      cases hc
    split at hq
    · cases hq
      exact hread
    · rename_i hnext
      cases hq
      obtain ⟨u, hu, hsame, hholder⟩ := mem_markRead htm
      refine hread.release hu hsame ?_ (mem_settled_of_final htm hnext) (.inr ?_)
      · rwa [Ticket.isPending_of_holder hholder]
      · rw [hholder, hdrain]
        simp
    · split at hq
      · rename_i hcomplete
        cases hq
        refine hp.release htm (.refl t) hpending (mem_settled_of_complete htm hcomplete) (.inr ?_)
        rw [hdrain]
        simp
      · cases hq
  · cases hq

theorem Follows.hear (h : p.InOrder) {n : Nat} (hid : p.InHand id n) (hm : id ∈ mine) {heard : Heard}
    (hq : p.hear id = some (heard, q)) :
    p.Follows mine p.settled q ∧ ∀ part, heard = .part part → q.InHand id (n + 1) := by
  have hp : p.Follows mine p.settled p := .refl h
  simp only [Pool.hear, Option.bind_eq_bind, Option.bind_eq_some_iff] at hq
  obtain ⟨t, ht, hq⟩ := hq
  obtain ⟨htm, rfl⟩ := ticket?_eq_some ht
  obtain ⟨u, hu, huid, hcaller, hn⟩ := hid
  obtain rfl := ticket_unique h.ids_nodup hu htm huid
  have hpending : u.isPending := by simp [Ticket.isPending, hcaller]
  have hread : p.Follows mine p.settled (p.markRead u.id) := hp.markRead (.inl hm)
  split at hq
  · cases hq
    refine ⟨hread, fun _ _ ↦ ⟨_, mem_setTicket.mpr ⟨u, hu, if_pos rfl⟩, rfl, hcaller, ?_⟩⟩
    exact congrArg Nat.succ hn
  · rename_i hnext
    cases hq
    obtain ⟨v, hv, hsame, hholder⟩ := mem_markRead htm
    refine ⟨hread.release hv hsame ?_ (mem_settled_of_final htm hnext) (.inl hm), fun _ h ↦ by cases h⟩
    rwa [Ticket.isPending_of_holder hholder]
  · split at hq
    · rename_i hcomplete
      cases hq
      have hfail : p.Follows mine p.settled (p.update u.seat u.generation Seat.fail) :=
        hp.update _ _ Seat.sound_fail
      refine ⟨hfail.release htm (.refl u) hpending (mem_settled_of_complete htm hcomplete) (.inl hm), ?_⟩
      exact fun _ h ↦ by cases h
    · cases hq

section Close

variable {now : Nat}

theorem Follows.closeStep (h : p.InOrder) (hq : p.closeStep now = some q) : p.Follows mine freed q := by
  have hp : p.Follows mine freed p := .refl h
  have hclosing {i : Nat} {s : Seat} (hi : p.seats[i]? = some s) (hf : s.state.isFinal = false) :
      p.Follows mine freed { p with seats := p.seats.set i { s with state := .closing } } := by
    rw [← modify_eq_set hi fun s ↦ { s with state := .closing }]
    refine hp.setSeat fun s' hs' ↦ ?_
    cases hi.symm.trans hs'
    exact Seat.sound_closing hf
  cases closes_of_closeStep hq with
  | @ask next asked s w x hc hi hf hw hx =>
    have hput := (hclosing hi hf).setWorker w (f := fun x ↦ { x with inbox := x.inbox ++ [.close] }) fun _ ↦ rfl
    rw [Pool.setWorker, modify_eq_set hx] at hput
    exact hput.congr rfl rfl rfl rfl
  | askVain hc hi hf hd => exact (hclosing hi hf).congr rfl rfl rfl rfl
  | skip | await | ended | finish => exact hp.congr rfl rfl rfl rfl

theorem Follows.graceOver (h : p.InOrder) (hq : p.graceOver now = some q) : p.Follows mine freed q := by
  have hp : p.Follows mine freed p := .refl h
  unfold Pool.graceOver at hq
  split at hq
  · rename_i l _ _
    cases hq
    exact (hp.update l.seat l.generation Seat.sound_errored).congr rfl rfl rfl rfl
  · cases hq

theorem Follows.beginClose (h : p.InOrder) (hq : p.beginClose = some q) : p.Follows mine freed q := by
  have hp : p.Follows mine freed p := .refl h
  unfold Pool.beginClose at hq
  split at hq <;> cases hq
  exact hp.congr rfl rfl rfl rfl

end Close

theorem Follows.remember (h : p.InOrder) (request : Request) : p.Follows mine freed (p.remember request) := by
  have hp : p.Follows mine freed p := .refl h
  unfold Pool.remember
  split
  · exact hp.congr rfl rfl rfl rfl
  · exact hp

theorem Follows.choose [Digest] (h : p.InOrder) (setup : PoolSetup σ) (request : Request) :
    p.Follows mine freed (p.choose setup request).2 := by
  have hp : p.Follows mine freed p := .refl h
  unfold Pool.choose
  dsimp only
  split
  · exact hp
  · exact hp.congr rfl rfl rfl rfl

theorem Follows.giveNumber (h : p.InOrder) (hq : p.giveNumber = (.ok id, q)) :
    p.Follows mine freed q ∧ id = p.nextId ∧ q.nextId = p.nextId + 1 ∧ q.ids = p.ids := by
  unfold Pool.giveNumber at hq
  split at hq
  · cases hq
  · cases hq
    refine ⟨⟨⟨fun hid ↦ Nat.lt_succ_of_lt (h.ids_lt hid), h.ids_nodup, h.replay, h.replay_unique,
      h.seat, h.ticket⟩, Nat.le_succ _, .inl, fun _ h ↦ h, fun ht hp _ ↦ ⟨_, ht, .refl _, hp⟩,
      fun hi ↦ ⟨_, hi, Nat.le_refl _⟩, rfl⟩, rfl, rfl, rfl⟩

theorem InOrder.start (setup : PoolSetup σ) (count : Nat) (disk : Disk) : (Pool.start setup count disk).InOrder := by
  refine List.foldlRecOn (motive := InOrder) _ _
    ⟨nofun, List.nodup_nil, nofun, nofun, fun hs ↦ ?_, nofun⟩ fun p h i _ ↦ ?_
  · obtain rfl := List.eq_of_mem_replicate (List.mem_of_getElem? hs)
    exact ⟨Nat.le_refl _, fun _ ↦ rfl, nofun, fun _ ↦ rfl, rfl, by simp⟩
  · have hstart : p.Follows [] [] (p.startWorker setup i) := (Follows.refl h).startWorker setup
    exact hstart.order

end AnalysisServer.Pool
