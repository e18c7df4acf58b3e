import AnalysisServer.Proofs.Pool.Queues
import AnalysisServer.Proofs.Pool.Staff
import AnalysisServer.Proofs.System.Outcomes
import AnalysisServer.Proofs.System.Sequential

namespace AnalysisServer

open List

open Mailroom

variable {σ : Type}

namespace Call

def Failed (x : Call) : Prop :=
  match x.stage with
  | .finished (.error _) | .gathering _ (some _) => True
  | _ => False

variable [Digest] {setup : PoolSetup σ} {s : System σ} {x y : Call} {q : Pool σ}

theorem Step.failed (h : x.Step setup s q y) (hx : x.Failed) : y.Failed := by
  unfold Failed at hx
  cases h with
  | @gathered failure h =>
    cases failure with
    | none => simp only [h] at hx
    | some e => trivial
  | gatherUnsent h => trivial
  | gatherPart h hq => exact hx
  | @gatherHear id rest failure outcome q h hq =>
    cases failure with
    | none => simp only [h] at hx
    | some e => cases outcome <;> trivial
  | accept h | turnAway h | remember h | choose h | number h | numberRefused h | send h | sendRefused h
  | hearPart h | hear h | spreadNumber h | spreadClosed h | spreadSend h | spreadRefused h | gather h =>
    simp only [h] at hx

inductive Puts (x y : Call) (m : Mailroom) : Mailroom → Prop
  | nothing {m'} (hg : x.gained y = []) (hd : m'.desks = m.desks) : Puts x y m m'
  | request {m' id d streaming} (hg : x.gained y = [id]) (hd : m.desks[x.stage.target]? = some d)
      (hd' : m'.desks = (m.setDesk x.stage.target
        { d with inbox := d.inbox ++ [.analyze id x.request streaming] }).desks) : Puts x y m m'

theorem Step.puts (h : x.Step setup s q y) (ho : x.InOrder s.pool) (hp : s.pool.Staffed) :
    (q.Staffed ∧ x.Puts y s.pool.mailroom q.mailroom) ∨ y.Failed := by
  -- what a step may do to the pool, up to the stage of the call after it
  have hsame {q : Pool σ} {y : Call} (hg : x.gained y = []) (hs : q.seats = s.pool.seats)
      (hw : q.workers = s.pool.workers) :
      (q.Staffed ∧ x.Puts y s.pool.mailroom q.mailroom) ∨ y.Failed :=
    .inl ⟨hp.of_eq hs hw, .nothing hg (congrArg (List.map Worker.desk) hw)⟩
  have hnumber {e : Except AnalysisError RequestId} {q : Pool σ} (hq : s.pool.giveNumber = (e, q)) :
      q.seats = s.pool.seats ∧ q.workers = s.pool.workers := by
    unfold Pool.giveNumber at hq
    split at hq <;> cases hq <;> exact ⟨rfl, rfl⟩
  have hsend {i : Nat} {id : RequestId} {streaming : Bool} {u : Unit} {q : Pool σ} {y : Call}
      (hq : s.pool.enqueue setup i id x.request streaming = (.ok u, q)) (hid : x.stage.number? = some id)
      (hi : x.stage.target = i) (hy : id ∈ y.tickets) :
      (q.Staffed ∧ x.Puts y s.pool.mailroom q.mailroom) ∨ y.Failed := by
    obtain ⟨hstaffed, ⟨g, d, -, -, hd, hm⟩ | ⟨⟨e, he⟩, -⟩⟩ := hp.enqueue hq
    · have hdesks : q.mailroom.desks = (s.pool.mailroom.setDesk x.stage.target
          { d with inbox := d.inbox ++ [.analyze id x.request streaming] }).desks := by
        rw [hm, hi]
        rfl
      exact .inl ⟨hstaffed, .request (gained_of_mem hid hy) (hi ▸ hd) hdesks⟩
    · cases he
  have hrefused {i : Nat} {id : RequestId} {streaming : Bool} {e : AnalysisError} {q : Pool σ}
      (hq : s.pool.enqueue setup i id x.request streaming = (.error e, q)) : q = s.pool := by
    obtain ⟨-, ⟨g, d, hr, -⟩ | ⟨-, heq⟩⟩ := hp.enqueue hq
    · cases hr
    · exact heq
  have hheard {id : RequestId} {heard : Pool.Heard} {q : Pool σ} (hq : s.pool.hear id = some (heard, q))
      {y : Call} (hg : x.gained y = []) (hy : ∀ e, heard = .outcome (.error e) → y.Failed) :
      (q.Staffed ∧ x.Puts y s.pool.mailroom q.mailroom) ∨ y.Failed := by
    obtain hstaffed | ⟨e, he⟩ := hp.hear hq
    · exact .inl ⟨hstaffed, .nothing hg (by rw [(Pool.mailroom_hear hq).1])⟩
    · exact .inr (hy e he)
  cases h with
  | accept h hd | turnAway h hr ha | gathered h | gatherUnsent h =>
    exact hsame (gained_of_stage h rfl) rfl rfl
  | remember h hr =>
    have hgained : x.gained { x with stage := .spreading 0 none [] } = [] := gained_of_stage h rfl
    unfold Pool.remember
    split
    · exact hsame hgained rfl rfl
    · exact hsame hgained rfl rfl
  | choose h hr =>
    refine hsame (gained_of_stage h rfl) ?_ ?_
    all_goals
      unfold Pool.choose
      split <;> rfl
  | number h hq | spreadNumber h hs hq | spreadClosed h hs hq =>
    exact hsame (gained_of_stage h rfl) (hnumber hq).1 (hnumber hq).2
  | numberRefused h hq | sendRefused h hq => exact .inr trivial
  | send h hq => exact hsend hq (by rw [h]; rfl) (congrArg Stage.target h) (by simp [tickets])
  | hearPart h hq | gatherPart h hq => exact hheard hq (gained_of_stage h rfl) (by simp)
  | @hear id outcome q h hq =>
    have hfailed (e : AnalysisError) (he : Pool.Heard.outcome outcome = .outcome (.error e)) :
        (x.ended (.finished outcome)).Failed := by
      cases he
      trivial
    obtain ⟨hstaffed, hputs⟩ | hfailed := hheard hq (gained_of_stage h rfl) hfailed
    · refine .inl ⟨hstaffed.of_eq rfl rfl, ?_⟩
      rwa [Pool.mailroom_detach]
    · exact .inr hfailed
  | spreadSend h hs hq =>
    exact hsend hq (by rw [h]; rfl) (congrArg Stage.target h) (by simp [tickets, Except.toOption])
  | spreadRefused h hs hq =>
    obtain rfl := hrefused hq
    exact hsame (gained_of_refused ho h _) rfl rfl
  | gather h hs => exact hsame (gained_of_gather ho h) rfl rfl
  | gatherHear h hq =>
    refine hheard hq (gained_of_stage h rfl) fun e he ↦ ?_
    cases he
    trivial

end Call

theorem Mailroom.Unserved.visited {setup : PoolSetup σ} {m m' : Mailroom} {x : Call}
    {journal : List Happening} {id : RequestId} (h : m.Visited setup x m')
    (hn : m.Numbered fun id ↦ x.stage.number? = some id) (hu : m.Unserved journal id) :
    m'.Unserved journal id := by
  cases h with
  | send hid hd =>
    obtain ⟨m₁, w, g, d, hprep, -, hd, rfl⟩ := hd
    exact (Unserved.prepared hprep hn hu).deliver (hprep.numbered hn) hid hd
  | refused hprep => exact .prepared hprep hn hu
  | stay | remember | number => exact ⟨hu.ticket, hu.absent, hu.failed⟩

namespace System

def queued (s : System σ) (journal : List Happening) (i : Nat) : List Request :=
  journal.filterMap fun
    | .sent c seat _ => if seat = i then s.calls[c]?.map Call.request else none
    | .said _ _ => none

variable {s s' : System σ} {journal journal' : List Happening} {i c : Nat} {x : Call} {id : RequestId} {seat : Nat}

theorem queued_append (s : System σ) (journal journal' : List Happening) (i : Nat) :
    s.queued (journal ++ journal') i = s.queued journal i ++ s.queued journal' i :=
  filterMap_append

theorem queued_sayings (s : System σ) (journal : List Happening) (said : List (RequestId × Reply)) (i : Nat) :
    s.queued (journal ++ sayings said) i = s.queued journal i := by
  have hnone : s.queued (sayings said) i = [] := by
    simp [queued, sayings, filterMap_map]
  rw [queued_append, hnone, append_nil]

theorem queued_sent (hx : s.calls[c]? = some x) (id : RequestId) :
    s.queued (journal ++ [Happening.sent c i id]) i = s.queued journal i ++ [x.request] := by
  simp [queued, hx]

theorem queued_sent_of_ne (h : seat ≠ i) (c : Nat) (id : RequestId) :
    s.queued (journal ++ [Happening.sent c seat id]) i = s.queued journal i := by
  simp [queued, h]

theorem queued_congr (h : ∀ c seat id, .sent c seat id ∈ journal →
      s'.calls[c]?.map Call.request = s.calls[c]?.map Call.request) (i : Nat) :
    s'.queued journal i = s.queued journal i := by
  refine filterMap_congr fun entry hentry ↦ ?_
  cases entry with
  | sent c seat id => simp only [h c seat id hentry]
  | said id reply => rfl

def Spoiled (journal : List Happening) (s : System σ) : Prop :=
  (∃ c seat id, .sent c seat id ∈ journal ∧ s.pool.mailroom.Unserved journal id) ∨
    ∃ (c : Nat) (x : Call), s.calls[c]? = some x ∧ x.Failed

/-- Whatever is sent to a seat is served by the first worker there, in the order in which it was sent. -/
structure Settling (setup : SystemSetup σ) (count : Nat) (journal : List Happening) (s : System σ) :
    Prop where
  staffed : s.pool.Staffed
  pending {w : WorkerId} {d : Desk} {id : RequestId} : s.pool.mailroom.desks[w]? = some d →
    id ∈ d.pending → ∃ c seat, .sent c seat id ∈ journal
  seat {c seat : Nat} {id : RequestId} : .sent c seat id ∈ journal → seat < count
  destined {w : WorkerId} {d : Desk} : s.pool.mailroom.desks[w]? = some d →
    d.destined = (s.queued journal w).foldl Request.linterAfter (setup.fresh w w)

variable {setup : SystemSetup σ} {count : Nat} {q : Pool σ} {y : Call}

theorem Settling.opened (setup : SystemSetup σ) (count : Nat) (disk : Disk) (timeouts : List Nat) :
    (opened setup count disk timeouts).Settling setup (max count 1) [] := by
  have hfilled := Pool.filled_start setup.toPoolSetup count disk
  refine ⟨hfilled.staffed, fun hd hid ↦ ?_, nofun, fun hd ↦ ?_⟩
  · obtain ⟨x, hx, rfl⟩ := Pool.desks_eq_some.mp hd
    obtain ⟨-, -, hin, hwork⟩ := hfilled.worker hx
    simp [Desk.pending, Desk.waiting, Worker.desk, hin, hwork] at hid
  · obtain ⟨x, hx, rfl⟩ := Pool.desks_eq_some.mp hd
    obtain ⟨-, hsession, hin, -⟩ := hfilled.worker hx
    simp [Desk.destined, Worker.desk, hin, hsession, queued, PoolSetup.fresh]

theorem Settling.of_desks (hs : s.Settling setup count journal) (hstaffed : s'.pool.Staffed)
    (hd : s'.pool.mailroom.desks = s.pool.mailroom.desks)
    (hq : ∀ i, s'.queued journal i = s.queued journal i) : s'.Settling setup count journal := by
  refine ⟨hstaffed, fun h ↦ hs.pending (hd ▸ h), hs.seat, fun h ↦ ?_⟩
  rw [hq]
  exact hs.destined (hd ▸ h)

theorem Settling.quiet (hs : s.Spoiled journal ∨ s.Settling setup count journal)
    (hm : q.mailroom = s.pool.mailroom) (hstaffed : s.pool.Staffed → q.Staffed) :
    { s with pool := q }.Spoiled journal ∨ { s with pool := q }.Settling setup count journal := by
  obtain (⟨c, seat, id, hsent, hu⟩ | hfailed) | hs := hs
  · exact .inl (.inl ⟨c, seat, id, hsent, hm ▸ hu⟩)
  · exact .inl (.inr hfailed)
  · exact .inr (hs.of_desks (hstaffed hs.staffed) (congrArg Mailroom.desks hm) fun _ ↦ rfl)

theorem queued_becomes (hx : s.calls[c]? = some x) (hb : s.Becomes s' c q y) (hsame : x.Same y) (i : Nat) :
    s'.queued journal i = s.queued journal i := by
  refine queued_congr (fun c' seat id _ ↦ ?_) i
  rw [hb.calls, List.getElem?_set]
  split
  · rename_i hc
    subst hc
    rw [if_pos (lt_of_getElem? hx), hx, Option.map_some, Option.map_some, hsame.request]
  · rfl

section Steps

variable [Digest] {timeouts : List Nat} {e : Event} {w : WorkerId}

theorem Faithful.record (hf : s.Faithful setup count timeouts journal)
    (h : .sent c seat id ∈ journal) : ∃ r b, s.recorded journal id r b := by
  have hx := List.getElem?_eq_getElem (hf.sent h)
  exact ⟨_, _, c, seat, _, h, hx, rfl, rfl⟩

section

variable (hs : s.Settling setup count journal) (hf : s.Faithful setup count timeouts journal)

include hs hf

theorem Settling.work (h : s.pool.workerStep setup.engine w = some q) :
    { s with pool := q }.Spoiled (journal ++ sayings (s.pool.utters setup.engine w)) ∨
      { s with pool := q }.Settling setup count (journal ++ sayings (s.pool.utters setup.engine w)) := by
  have hshift := Pool.workerStep_shift h
  have hspoiled {id : RequestId} {v : WorkerId} {d : Desk} (hd : s.pool.mailroom.desks[v]? = some d)
      (hid : id ∈ d.pending)
      (hu : q.mailroom.Unserved (journal ++ sayings (s.pool.utters setup.engine w)) id) :
      { s with pool := q }.Spoiled (journal ++ sayings (s.pool.utters setup.engine w)) := by
    obtain ⟨c, seat, hsent⟩ := hs.pending hd hid
    exact .inl ⟨c, seat, id, mem_append_left _ hsent, hu⟩
  obtain hstaffed | ⟨x, job, hx, hwork, hm⟩ := hs.staffed.workerStep h
  · obtain hkeep | ⟨v, d, id, hd, hid, hu⟩ := hf.mail.destined hshift
    · refine .inr ⟨hstaffed, fun he hid ↦ ?_, fun hsent ↦ ?_, fun {v e} he ↦ ?_⟩
      · obtain ⟨d, hd, hsub⟩ := hshift.pending he
        obtain ⟨c, seat, hsent⟩ := hs.pending hd (hsub.subset hid)
        exact ⟨c, seat, mem_append_left _ hsent⟩
      · obtain hsent | hsent := mem_append.mp hsent
        · exact hs.seat hsent
        · exact (not_sent_sayings hsent).elim
      · obtain ⟨d, hd, hsame⟩ := hkeep v e he
        rw [hsame, queued_sayings]
        exact hs.destined hd
    · exact .inl (hspoiled hd hid hu)
  · -- the rules have crashed, and the request at hand is lost
    have hd := Pool.desks_of_workers hx
    have hid : job.id ∈ x.desk.pending := Desk.pending_of_work (d := x.desk) hwork ▸ mem_cons_self
    obtain ⟨c, seat, hsent⟩ := hs.pending hd hid
    obtain ⟨r, b, hr⟩ := hf.record hsent
    refine .inl (hspoiled hd hid ?_)
    rw [hm]
    exact hf.mail.crash hd hwork hr (hm ▸ hf.mail.shift hshift)

theorem Settling.callStep (hx : s.calls[c]? = some x)
    (hstep : x.Step setup.toPoolSetup s q y) (hb : s.Becomes s' c q y) :
    s'.Spoiled (journal ++ (x.gained y).map (.sent c x.stage.target)) ∨
      s'.Settling setup count (journal ++ (x.gained y).map (.sent c x.stage.target)) := by
  have hlt := lt_of_getElem? hx
  have hy : s'.calls[c]? = some y := by
    rw [hb.calls]
    exact List.getElem?_set_self hlt
  have hqueued (journal : List Happening) (i : Nat) : s'.queued journal i = s.queued journal i :=
    queued_becomes hx hb hstep.same i
  obtain ⟨hstaffed, hputs⟩ | hfailed := hstep.puts (hf.order.call hx) hs.staffed
  · refine .inr ?_
    rw [← hb.pool] at hstaffed hputs
    cases hputs with
    | nothing hg hd =>
      rw [hg, map_nil, append_nil]
      exact hs.of_desks hstaffed hd (hqueued journal)
    | @request id d streaming hg hd hd' =>
      rw [hg]
      -- one desk has a new message at its end, and the others are as they were
      have hcases {v : WorkerId} {e : Desk} (he : s'.pool.mailroom.desks[v]? = some e) :
          (v = x.stage.target ∧ e = { d with inbox := d.inbox ++ [.analyze id x.request streaming] }) ∨
            (v ≠ x.stage.target ∧ s.pool.mailroom.desks[v]? = some e) :=
        setDesk_cases hd (hd' ▸ he)
      have hold {v : WorkerId} {e : Desk} {id' : RequestId} (he : s.pool.mailroom.desks[v]? = some e)
          (hid : id' ∈ e.pending) :
          ∃ c' seat, Happening.sent c' seat id' ∈ journal ++ [id].map (.sent c x.stage.target) := by
        obtain ⟨c', seat, hsent⟩ := hs.pending he hid
        exact ⟨c', seat, mem_append_left _ hsent⟩
      refine ⟨hstaffed, fun he hid ↦ ?_, fun hsent ↦ ?_, fun he ↦ ?_⟩
      · obtain ⟨rfl, rfl⟩ | ⟨-, he⟩ := hcases he
        · rw [Desk.pending_put] at hid
          obtain hid | hid := mem_append.mp hid
          · exact hold hd hid
          · rw [mem_singleton.mp hid]
            exact ⟨c, _, mem_append_right _ (mem_singleton_self _)⟩
        · exact hold he hid
      · obtain hsent | hsent := mem_append.mp hsent
        · exact hs.seat hsent
        · cases mem_singleton.mp hsent
          have hlt := lt_of_getElem? hd
          simp only [Pool.mailroom, length_map] at hlt
          rwa [← hf.seats, ← hs.staffed.count]
      · obtain ⟨rfl, rfl⟩ | ⟨hv, he⟩ := hcases he
        · rw [Desk.destined_put, hqueued, map_singleton, queued_sent hx, foldl_append, hs.destined hd]
          rfl
        · rw [hqueued, map_singleton, queued_sent_of_ne (Ne.symm hv)]
          exact hs.destined he
  · exact .inl (.inr ⟨c, y, hy, hfailed⟩)

end

theorem Spoiled.work (hs : s.Spoiled journal) (h : s.pool.workerStep setup.engine w = some q) :
    { s with pool := q }.Spoiled (journal ++ sayings (s.pool.utters setup.engine w)) := by
  obtain ⟨c, seat, id, hsent, hu⟩ | hfailed := hs
  · exact .inl ⟨c, seat, id, mem_append_left _ hsent, hu.shift (Pool.workerStep_shift h)⟩
  · exact .inr hfailed

theorem Spoiled.callStep (hs : s.Spoiled journal) (hf : s.Faithful setup count timeouts journal)
    (hx : s.calls[c]? = some x) (hstep : x.Step setup.toPoolSetup s q y) (hb : s.Becomes s' c q y) :
    s'.Spoiled (journal ++ (x.gained y).map (.sent c x.stage.target)) := by
  obtain ⟨c', seat, id, hsent, hu⟩ | ⟨c', z, hz, hfailed⟩ := hs
  · have hu' := hu.visited (visited_mail hstep.visited) ((hf.order.call hx).numbered hf.mail)
    refine .inl ⟨c', seat, id, mem_append_left _ hsent, ?_⟩
    rw [hb.pool]
    refine ⟨hu'.ticket, hu'.absent, fun response ↦ ?_⟩
    rw [replies_sent]
    exact hu'.failed response
  · refine .inr ?_
    by_cases hc : c' = c
    · subst hc
      cases hx.symm.trans hz
      refine ⟨c', y, ?_, hstep.failed hfailed⟩
      exact hb.call hx
    · refine ⟨c', z, ?_, hfailed⟩
      rwa [hb.calls, List.getElem?_set_ne (Ne.symm hc)]

section

variable (hs : s.Spoiled journal ∨ s.Settling setup count journal) (hf : s.Faithful setup count timeouts journal)

include hs hf

theorem Settling.step (he : e.IsOrdinary) (h : s.step setup e = some s') :
    s'.Spoiled (journal ++ s.happenings setup e s') ∨
      s'.Settling setup count (journal ++ s.happenings setup e s') := by
  cases proceeds_of_step h with
  | work hq =>
    obtain hs | hs := hs
    · exact .inl (hs.work hq)
    · exact hs.work hf hq
  | monitor hq =>
    exact (append_nil journal).symm ▸ quiet hs (Pool.mailroom_monitorStep hq) (·.monitorStep hq)
  | replay hq =>
    refine (append_nil journal).symm ▸ quiet hs (Pool.mailroom_replayStep hq) fun hstaffed ↦ ?_
    rw [hstaffed.replayStep] at hq
    cases hq
  | drain hq =>
    exact (append_nil journal).symm ▸ quiet hs (Pool.mailroom_drainStep hq) (·.drainStep hq)
  | call hx hstep hb =>
    simp only [happenings, hx, hb.call hx]
    obtain hs | hs := hs
    · exact .inl (hs.callStep hf hx hstep hb)
    · exact hs.callStep hf hx hstep hb
  | pass =>
    refine (append_nil journal).symm ▸ hs.imp (fun hs ↦ hs) fun hs ↦ ?_
    exact hs.of_desks hs.staffed rfl fun _ ↦ rfl
  | _ => cases he

theorem Settling.begin (x : Call) : (s.begin x).2.Spoiled journal ∨ (s.begin x).2.Settling setup count journal := by
  have hold {c} (hc : c < s.calls.length) : (s.begin x).2.calls[c]? = s.calls[c]? :=
    List.getElem?_append_left hc
  obtain (hu | ⟨c, z, hz, hfailed⟩) | hs := hs
  · exact .inl (.inl hu)
  · exact .inl (.inr ⟨c, z, (hold (lt_of_getElem? hz)).trans hz, hfailed⟩)
  · refine .inr (hs.of_desks hs.staffed rfl fun i ↦ queued_congr (fun c seat id hsent ↦ ?_) i)
    rw [hold (hf.sent hsent)]

end

end Steps

end System

end AnalysisServer
