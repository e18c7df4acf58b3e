import AnalysisServer.Proofs.Pool.Journal
import AnalysisServer.Proofs.Session.Effects

namespace AnalysisServer

open List

def Message.linterAfter (l : Option Linter) : Message → Option Linter
  | .analyze _ request _ => request.linterAfter l
  | .close => l

def Desk.destined (d : Desk) : Option Linter :=
  d.inbox.foldl Message.linterAfter d.linter

theorem Desk.destined_put (d : Desk) (id : RequestId) (request : Request) (streaming : Bool) :
    ({ d with inbox := d.inbox ++ [.analyze id request streaming] } : Desk).destined =
      request.linterAfter d.destined := by
  simp [destined, Message.linterAfter]

theorem Desk.destined_of_waiting {d : Desk} (h : d.waiting = []) : d.destined = d.linter := by
  have hfold (inbox : List Message) (hin : inbox.filterMap Message.id? = []) (l : Option Linter) :
      inbox.foldl Message.linterAfter l = l := by
    induction inbox with
    | nil => rfl
    | cons message rest ih =>
      cases message with
      | analyze => cases hin
      | close => exact ih hin
  exact hfold _ h _

namespace Mailroom

variable {σ : Type} [Digest] {engine : RuleEngine σ} {m m' : Mailroom} {journal : List Happening}
  {said : List (RequestId × Reply)} {recorded : RequestId → Request → Bool → Prop} {held : RequestId → Prop}
  {w : WorkerId} {d e : Desk} {id : RequestId}

structure Unserved (journal : List Happening) (m : Mailroom) (id : RequestId) : Prop where
  ticket : ∃ t ∈ m.slips, t.id = id
  absent : m.Absent id
  failed (response : Response) : .final (.ok response) ∉ replies journal id

namespace Unserved

theorem shift (hu : m.Unserved journal id) (h : m.Shift engine said m') :
    m'.Unserved (journal ++ sayings said) id := by
  refine ⟨?_, hu.absent.shift h, fun response ↦ ?_⟩
  · obtain ⟨t, ht, rfl⟩ := hu.ticket
    rw [h.slips]
    exact ⟨_, mem_map_of_mem ht, rfl⟩
  · have hnone : replies (sayings said) id = [] := replies_eq_nil fun reply hsaid ↦ by
      obtain ⟨w, d, hd, hid⟩ := h.said_pending (mem_sayings.mp hsaid)
      exact hu.absent hd hid
    rw [replies_append, hnone, append_nil]
    exact hu.failed response

omit [Digest] in
theorem prepared {fresh : WorkerId → Nat → Option Linter} {i : Nat} (h : Prepared fresh i m m')
    (hn : m.Numbered held) (hu : m.Unserved journal id) : m'.Unserved journal id := by
  induction h with
  | ready m => exact hu
  | @start m m' seat hi _ ih =>
    refine ih (hn.start hi _) ⟨?_, fun w e he hid ↦ ?_, hu.failed⟩
    · obtain ⟨t, ht, hid⟩ := hu.ticket
      exact ⟨t, mem_append_left _ ht, hid⟩
    · obtain he | ⟨-, rfl⟩ := start_cases he
      · exact hu.absent he hid
      · obtain ⟨t, ht, rfl⟩ := hu.ticket
        obtain ⟨message, hmessage, hmid⟩ := mem_filterMap.mp hid
        obtain ⟨M, -, rfl⟩ := replay_linter hmessage
        exact Nat.ne_of_gt (hn.slip_lt ht) (Option.some.inj hmid)

omit [Digest] in
theorem deliver (hu : m.Unserved journal id) (hn : m.Numbered held) {id' : RequestId} (hid : held id')
    {i g : Nat} {request : Request} {streaming : Bool} (hd : m.desks[w]? = some d) :
    (m.deliver i g w d id' request streaming).Unserved journal id := by
  obtain ⟨t, ht, rfl⟩ := hu.ticket
  refine ⟨⟨t, mem_append_left _ ht, rfl⟩, fun v e he hpending ↦ ?_, hu.failed⟩
  obtain ⟨rfl, rfl⟩ | ⟨-, he⟩ := deliver_cases hd he
  · rw [Desk.pending_put] at hpending
    obtain hpending | hpending := mem_append.mp hpending
    · exact hu.absent hd hpending
    · exact (hn.held_fresh hid).2 t ht (mem_singleton.mp hpending)
  · exact hu.absent he hpending

end Unserved

namespace Journaled

section

variable (hm : m.Journaled engine recorded journal) (hd : m.desks[w]? = some d)

include hm hd

theorem unheard (hid : id ∈ d.waiting) : replies journal id = [] := by
  obtain ⟨t, ht, rfl, -⟩ := hm.numbered.pending_slip hd (mem_append_right _ hid)
  rw [← hm.written ht]
  exact hm.numbered.waiting_unwritten hd ht hid

theorem unended (hid : id ∈ d.pending) {r : Request} {b : Bool} (hr : recorded id r b)
    (outcome : Except AnalysisError Response) : .final outcome ∉ replies journal id := by
  intro ho
  obtain hid | hid := mem_append.mp hid
  · obtain ⟨job, hw, rfl⟩ : ∃ job, d.work = some job ∧ job.id = id := by simpa using hid
    obtain ⟨t, ht, htid⟩ := hm.known hr
    obtain ⟨parts, -, hwritten⟩ := hm.serves.work hd hw ht htid hr
    rw [← htid, ← hm.written ht, hwritten] at ho
    obtain ⟨part, -, hpart⟩ := mem_map.mp ho
    cases hpart
  · rw [hm.unheard hd hid] at ho
    cases ho

theorem crash {job : Work} (hw : d.work = some job) {r : Request} {b : Bool} (hr : recorded job.id r b)
    {journal' : List Happening}
    (hm' : (m.setDesk w { d with work := none }).Journaled engine recorded journal') :
    (m.setDesk w { d with work := none }).Unserved journal' job.id := by
  have hp := Desk.pending_of_work hw
  have hid : job.id ∈ d.pending := hp ▸ mem_cons_self
  obtain ⟨t, ht, htid⟩ := hm.known hr
  have hsame : replies journal' job.id = replies journal job.id := by
    rw [← htid, ← hm.written ht]
    exact (hm'.written (t := t) ht).symm
  refine ⟨⟨t, ht, htid⟩, hm.numbered.absent hd hid (hm.numbered.head_not_mem hd hp), fun response ↦ ?_⟩
  rw [hsame]
  exact hm.unended hd hid hr _

end

theorem destined (hm : m.Journaled engine recorded journal) (h : m.Shift engine said m') :
    (∀ (w : WorkerId) (e : Desk), m'.desks[w]? = some e → ∃ d, m.desks[w]? = some d ∧ e.destined = d.destined) ∨
      ∃ (w : WorkerId) (d : Desk) (id : RequestId), m.desks[w]? = some d ∧ id ∈ d.pending ∧
        m'.Unserved (journal ++ sayings said) id := by
  have hset {v d d'} (hd : m.desks[v]? = some d) (hsame : d'.destined = d.destined)
      (w : WorkerId) (e : Desk) (he : (m.setDesk v d').desks[w]? = some e) :
      ∃ d, m.desks[w]? = some d ∧ e.destined = d.destined := by
    obtain ⟨rfl, rfl⟩ | ⟨-, he⟩ := setDesk_cases hd he
    · exact ⟨d, hd, hsame⟩
    · exact ⟨e, he, rfl⟩
  cases h with
  | stay => exact .inl fun w e he ↦ ⟨e, he, rfl⟩
  | @begin w d id request streaming rest progress space space' hd hw hin hl hb =>
    have hserved (hok : ∀ e, progress ≠ .done (.error e)) : ({ d with
        inbox := rest, linter := space'.session.linter, work := progress.work? id } : Desk).destined =
          d.destined := by
      simp only [Desk.destined, hin, foldl_cons, Message.linterAfter, Session.begin_linter hb hok, hl]
    match progress with
    | .more task => exact .inl (hset hd (hserved nofun))
    | .done (.ok response) => exact .inl (hset hd (hserved nofun))
    | .done (.error e) =>
      -- the linter may be another one than expected, but the request has heard its last word
      have hp := Desk.pending_of_inbox hw hin
      have hid : id ∈ d.pending := hp ▸ mem_cons_self
      obtain ⟨t, ht, htid, -⟩ := hm.numbered.pending_slip hd hid
      refine .inr ⟨w, d, id, hd, hid, ⟨_, mem_map_of_mem ht, htid⟩, ?_, fun response ↦ ?_⟩
      · exact hm.numbered.absent hd hid (hm.numbered.head_not_mem hd hp)
      · have hwaiting : id ∈ d.waiting := by simp [Desk.waiting, hin, Message.id?]
        rw [replies_append, hm.unheard hd hwaiting, replies_said]
        simp [Progress.final]
  | step hd hw hl hs =>
    refine .inl (hset hd ?_)
    rw [Desk.destined, (Session.step_kept hs).1, hl]
    rfl
  | fail hd hw hs | crash hd hw => exact .inl (hset hd rfl)
  | close hd hw hin =>
    refine .inl (hset hd ?_)
    simp [Desk.destined, hin, Message.linterAfter]
  | @drop w d hd =>
    -- mail that is thrown away without a request in it does not count
    cases hwaiting : d.waiting with
    | nil => exact .inl (hset hd (Desk.destined_of_waiting hwaiting).symm)
    | cons id rest =>
      have hid : id ∈ d.waiting := hwaiting ▸ mem_cons_self
      have hpending : id ∈ d.pending := mem_append_right _ hid
      obtain ⟨t, ht, htid, -⟩ := hm.numbered.pending_slip hd hpending
      refine .inr ⟨w, d, id, hd, hpending, ⟨t, ht, htid⟩, hm.numbered.absent hd hpending fun h ↦ ?_,
        fun response ↦ ?_⟩
      · have hnodup := hm.numbered.pending_nodup hd
        rw [Desk.pending, nodup_append] at hnodup
        obtain h | h := mem_append.mp h
        · exact hnodup.2.2 id h id hid rfl
        · cases h
      · rw [replies_append, hm.unheard hd hid]
        simp [sayings, replies]

end Journaled

end Mailroom

end AnalysisServer
