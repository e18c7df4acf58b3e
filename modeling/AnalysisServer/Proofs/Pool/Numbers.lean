import AnalysisServer.Proofs.Pool.Turns

namespace AnalysisServer

open List

def Desk.waiting (d : Desk) : List RequestId :=
  d.inbox.filterMap Message.id?

/-- The numbers of all requests at a desk, in the order in which they are answered. -/
def Desk.pending (d : Desk) : List RequestId :=
  (d.work.map Work.id).toList ++ d.waiting

namespace Desk

variable {d : Desk} {id : RequestId} {request : Request} {streaming : Bool} {rest : List Message}

theorem pending_of_inbox (hw : d.work = none) (hin : d.inbox = .analyze id request streaming :: rest) :
    d.pending = id :: rest.filterMap Message.id? := by
  simp [pending, waiting, hw, hin, Message.id?]

theorem pending_of_work {job : Work} (hw : d.work = some job) : d.pending = job.id :: d.waiting := by
  simp [pending, hw]

theorem waiting_put (d : Desk) (id : RequestId) (request : Request) (streaming : Bool) :
    ({ d with inbox := d.inbox ++ [.analyze id request streaming] } : Desk).waiting = d.waiting ++ [id] := by
  simp [waiting, Message.id?]

theorem pending_put (d : Desk) (id : RequestId) (request : Request) (streaming : Bool) :
    ({ d with inbox := d.inbox ++ [.analyze id request streaming] } : Desk).pending = d.pending ++ [id] := by
  simp only [pending, waiting_put, append_assoc]

theorem waiting_sublist {d' : Desk} {message : Message} (hin : d.inbox = message :: rest)
    (hin' : d'.inbox = rest) : d'.waiting.Sublist d.waiting := by
  rw [waiting, waiting, hin, hin']
  exact (sublist_cons_self _ _).filterMap _

/-- What is left of a desk when something was taken from it. -/
structure Shrinks (d d' : Desk) : Prop where
  seat : d'.seat = d.seat
  generation : d'.generation = d.generation
  pending : d'.pending.Sublist d.pending
  waiting : d'.waiting.Sublist d.waiting

end Desk

theorem Progress.sublist_work (progress : Progress) (id : RequestId) (ids : List RequestId) :
    (((progress.work? id).map Work.id).toList ++ ids).Sublist (id :: ids) := by
  cases progress with
  | more task => exact .refl _
  | done outcome => exact sublist_cons_self _ _

namespace Mailroom

def Absent (m : Mailroom) (id : RequestId) : Prop :=
  ∀ ⦃w : WorkerId⦄ ⦃d : Desk⦄, m.desks[w]? = some d → id ∉ d.pending

structure Numbered (m : Mailroom) (held : RequestId → Prop) : Prop where
  seated {i : Nat} {w : WorkerId} {g : Nat} : m.seats[i]? = some (some w, g) →
    ∃ d, m.desks[w]? = some d ∧ d.seat = i ∧ d.generation = g
  generation_le {w : WorkerId} {d : Desk} : m.desks[w]? = some d →
    ∃ seat, m.seats[d.seat]? = some seat ∧ d.generation ≤ seat.2
  desk_unique {w v : WorkerId} {d e : Desk} : m.desks[w]? = some d → m.desks[v]? = some e →
    d.seat = e.seat → d.generation = e.generation → w = v
  slip_lt {t : Slip} : t ∈ m.slips → t.id < m.nextId
  slip_unique {t u : Slip} : t ∈ m.slips → u ∈ m.slips → t.id = u.id → t = u
  pending_nodup {w : WorkerId} {d : Desk} : m.desks[w]? = some d → d.pending.Nodup
  pending_slip {w : WorkerId} {d : Desk} {id : RequestId} : m.desks[w]? = some d → id ∈ d.pending →
    ∃ t ∈ m.slips, t.id = id ∧ t.seat = d.seat ∧ t.generation = d.generation
  waiting_unwritten {w : WorkerId} {d : Desk} {t : Slip} : m.desks[w]? = some d → t ∈ m.slips →
    t.id ∈ d.waiting → t.written = []
  held_fresh {id : RequestId} : held id → id < m.nextId ∧ ∀ t ∈ m.slips, t.id ≠ id

variable {m : Mailroom} {held held' : RequestId → Prop} {w v : WorkerId} {d d' e : Desk}
  {id : RequestId} {t : Slip} {m' : Mailroom}

theorem setDesk_cases (hd : m.desks[w]? = some d) (h : (m.setDesk w d').desks[v]? = some e) :
    (v = w ∧ e = d') ∨ (v ≠ w ∧ m.desks[v]? = some e) :=
  getElem?_set_cases hd h

theorem desks_setDesk_self (hd : m.desks[w]? = some d) : (m.setDesk w d').desks[w]? = some d' :=
  getElem?_set_same hd

theorem desks_setDesk_of_ne (h : v ≠ w) : (m.setDesk w d').desks[v]? = m.desks[v]? := by
  simp [setDesk, List.getElem?_set_ne (Ne.symm h)]

/-- One desk may shrink, and what is said is about the first request there. -/
inductive Shrinks (m : Mailroom) : List (RequestId × Reply) → Mailroom → Prop
  | stay : Shrinks m [] m
  | quiet {w : WorkerId} {d d' : Desk} (hd : m.desks[w]? = some d) (h : d.Shrinks d') : Shrinks m [] (m.setDesk w d')
  | serve {w : WorkerId} {d d' : Desk} {id : RequestId} (hd : m.desks[w]? = some d) (h : d.Shrinks d')
      (hp : d.pending = id :: d'.waiting) (rs : List Reply) :
      Shrinks m (rs.map (id, ·)) ((m.setDesk w d').say id rs)

section Shifts

variable [Digest] {σ : Type} {engine : RuleEngine σ} {said : List (RequestId × Reply)}

theorem Shift.shrinks (h : m.Shift engine said m') : m.Shrinks said m' := by
  cases h with
  | stay => exact .stay
  | begin hd hw hin hl hb =>
    have hp := Desk.pending_of_inbox hw hin
    refine .serve hd ?_ hp _
    exact ⟨rfl, rfl, hp ▸ Progress.sublist_work _ _ _, Desk.waiting_sublist hin rfl⟩
  | step hd hw hl hs =>
    have hp := Desk.pending_of_work hw
    refine .serve hd ?_ ?_ _
    · exact ⟨rfl, rfl, hp ▸ Progress.sublist_work _ _ _, .refl _⟩
    · exact hp
  | fail hd hw hs =>
    have hp := Desk.pending_of_work hw
    refine .serve hd ?_ ?_ [_]
    · exact ⟨rfl, rfl, hp ▸ sublist_cons_self _ _, .refl _⟩
    · exact hp
  | crash hd hw =>
    exact .quiet hd ⟨rfl, rfl, Desk.pending_of_work hw ▸ sublist_cons_self _ _, .refl _⟩
  | close hd hw hin =>
    exact .quiet hd ⟨rfl, rfl, List.Sublist.append (.refl _) (Desk.waiting_sublist hin rfl),
      Desk.waiting_sublist hin rfl⟩
  | drop hd =>
    exact .quiet hd ⟨rfl, rfl, List.Sublist.append (.refl _) (nil_sublist _), nil_sublist _⟩

theorem Shift.pending (h : m.Shift engine said m') (he : m'.desks[w]? = some e) :
    ∃ d, m.desks[w]? = some d ∧ e.pending.Sublist d.pending := by
  cases h.shrinks with
  | stay => exact ⟨e, he, .refl _⟩
  | @quiet _ d _ hd hless | @serve _ d _ _ hd hless =>
    obtain ⟨rfl, rfl⟩ | ⟨-, he⟩ := setDesk_cases hd he
    · exact ⟨d, hd, hless.pending⟩
    · exact ⟨e, he, .refl _⟩

theorem Shift.said_pending {reply : Reply} (h : m.Shift engine said m') (hsaid : (id, reply) ∈ said) :
    ∃ (w : WorkerId) (d : Desk), m.desks[w]? = some d ∧ id ∈ d.pending := by
  cases h.shrinks with
  | stay | quiet => cases hsaid
  | serve hd _ hp =>
    obtain ⟨_, -, heq⟩ := mem_map.mp hsaid
    cases heq
    exact ⟨_, _, hd, hp ▸ mem_cons_self⟩

theorem Absent.shift (hid : m.Absent id) (h : m.Shift engine said m') : m'.Absent id := by
  intro w e he hmem
  obtain ⟨d, hd, hsub⟩ := h.pending he
  exact hid hd (hsub.subset hmem)

end Shifts

namespace Numbered

section

variable (hn : m.Numbered held)

include hn

theorem pending_unique (hd : m.desks[w]? = some d)
    (he : m.desks[v]? = some e) (hid : id ∈ d.pending) (hid' : id ∈ e.pending) : w = v := by
  obtain ⟨t, ht, rfl, hseat, hgen⟩ := hn.pending_slip hd hid
  obtain ⟨u, hu, hu', hseat', hgen'⟩ := hn.pending_slip he hid'
  obtain rfl := hn.slip_unique ht hu hu'.symm
  exact hn.desk_unique hd he (hseat.symm.trans hseat') (hgen.symm.trans hgen')

theorem mono (h : ∀ id, held' id → held id) : m.Numbered held' :=
  { hn with held_fresh := fun hid ↦ hn.held_fresh (h _ hid) }

section

variable (hd : m.desks[w]? = some d) (hseat : d'.seat = d.seat) (hgen : d'.generation = d.generation)

include hd hseat hgen

theorem setDesk (hnodup : d'.pending.Nodup) (hslip : ∀ id ∈ d'.pending, ∃ t ∈ m.slips, t.id = id ∧ t.seat = d.seat ∧
      t.generation = d.generation)
    (hwait : ∀ t ∈ m.slips, t.id ∈ d'.waiting → t.written = []) : (m.setDesk w d').Numbered held := by
  have hback {v : WorkerId} {e : Desk} (h : (m.setDesk w d').desks[v]? = some e) :
      ∃ e₀, m.desks[v]? = some e₀ ∧ e.seat = e₀.seat ∧ e.generation = e₀.generation := by
    obtain ⟨rfl, rfl⟩ | ⟨-, h⟩ := setDesk_cases hd h
    · exact ⟨d, hd, hseat, hgen⟩
    · exact ⟨e, h, rfl, rfl⟩
  refine ⟨?_, ?_, ?_, hn.slip_lt, hn.slip_unique, ?_, ?_, ?_, hn.held_fresh⟩
  · intro i v g h
    obtain ⟨e, he, hs, hg⟩ := hn.seated h
    by_cases hv : v = w
    · subst hv
      cases hd.symm.trans he
      exact ⟨d', desks_setDesk_self hd, hseat.trans hs, hgen.trans hg⟩
    · exact ⟨e, (desks_setDesk_of_ne hv).trans he, hs, hg⟩
  · intro v e h
    obtain ⟨e₀, he, hs, hg⟩ := hback h
    rw [hs, hg]
    exact hn.generation_le he
  · intro u v e f he hf hs hg
    obtain ⟨e₀, he, hs', hg'⟩ := hback he
    obtain ⟨f₀, hf, hs'', hg''⟩ := hback hf
    exact hn.desk_unique he hf (hs'.symm.trans (hs.trans hs'')) (hg'.symm.trans (hg.trans hg''))
  · intro v e h
    obtain ⟨rfl, rfl⟩ | ⟨-, h⟩ := setDesk_cases hd h
    · exact hnodup
    · exact hn.pending_nodup h
  · intro v e id h hid
    obtain ⟨rfl, rfl⟩ | ⟨-, h⟩ := setDesk_cases hd h
    · rw [hseat, hgen]
      exact hslip id hid
    · exact hn.pending_slip h hid
  · intro v e t h ht hid
    obtain ⟨rfl, rfl⟩ | ⟨-, h⟩ := setDesk_cases hd h
    · exact hwait t ht hid
    · exact hn.waiting_unwritten h ht hid

theorem shrink (hsub : d'.pending.Sublist d.pending)
    (hwait : d'.waiting.Sublist d.waiting) : (m.setDesk w d').Numbered held :=
  hn.setDesk hd hseat hgen (hsub.nodup (hn.pending_nodup hd)) (fun _ hid ↦ hn.pending_slip hd (hsub.subset hid))
    fun _ ht hid ↦ hn.waiting_unwritten hd ht (hwait.subset hid)

end

theorem say (h : ∀ {w : WorkerId} {d : Desk}, m.desks[w]? = some d → id ∉ d.waiting) (rs : List Reply) :
    (m.say id rs).Numbered held := by
  refine ⟨hn.seated, hn.generation_le, hn.desk_unique, ?_, ?_, hn.pending_nodup, ?_, ?_, ?_⟩
  · intro t ht
    obtain ⟨u, hu, rfl⟩ := mem_slips_say.mp ht
    have hlt := hn.slip_lt hu
    exact hlt
  · intro t u ht hu hid
    obtain ⟨t', ht', rfl⟩ := mem_slips_say.mp ht
    obtain ⟨u', hu', rfl⟩ := mem_slips_say.mp hu
    have htu : t' = u' := hn.slip_unique ht' hu' hid
    rw [htu]
  · intro w d id' hd hid
    obtain ⟨t, ht, hid, hseat, hgen⟩ := hn.pending_slip hd hid
    exact ⟨_, mem_slips_say.mpr ⟨t, ht, rfl⟩, hid, hseat, hgen⟩
  · intro w d t hd ht hid
    obtain ⟨u, hu, rfl⟩ := mem_slips_say.mp ht
    have hne : u.id ≠ id := fun he ↦ h hd (he ▸ hid)
    rw [add_of_ne hne]
    exact hn.waiting_unwritten hd hu hid
  · intro id' hid
    obtain ⟨hlt, hfresh⟩ := hn.held_fresh hid
    refine ⟨hlt, fun t ht ↦ ?_⟩
    obtain ⟨u, hu, rfl⟩ := mem_slips_say.mp ht
    exact hfresh u hu

theorem number (hheld : ∀ id, held' id → held id ∨ id = m.nextId) :
    { m with nextId := m.nextId + 1 }.Numbered held' := by
  refine ⟨hn.seated, hn.generation_le, hn.desk_unique, fun ht ↦ Nat.lt_succ_of_lt (hn.slip_lt ht),
    hn.slip_unique, hn.pending_nodup, hn.pending_slip, hn.waiting_unwritten, fun {id} hid ↦ ?_⟩
  obtain h | rfl := hheld id hid
  · exact ⟨Nat.lt_succ_of_lt (hn.held_fresh h).1, (hn.held_fresh h).2⟩
  · exact ⟨Nat.lt_succ_self _, fun t ht ↦ Nat.ne_of_lt (hn.slip_lt ht)⟩

theorem setLinter (linter : Option Linter) : { m with linter }.Numbered held :=
  ⟨hn.seated, hn.generation_le, hn.desk_unique, hn.slip_lt, hn.slip_unique, hn.pending_nodup,
    hn.pending_slip, hn.waiting_unwritten, hn.held_fresh⟩

theorem addSlip (hlt : t.id < m.nextId) (hfresh : ∀ u ∈ m.slips, u.id ≠ t.id) (hwritten : t.written = [])
    (hheld : ∀ id, held' id → held id ∧ id ≠ t.id) : { m with slips := m.slips ++ [t] }.Numbered held' := by
  refine ⟨hn.seated, hn.generation_le, hn.desk_unique, ?_, ?_, hn.pending_nodup, ?_, ?_, ?_⟩
  · intro u hu
    obtain hu | hu := mem_append.mp hu
    · exact hn.slip_lt hu
    · cases mem_singleton.mp hu
      exact hlt
  · intro u v hu hv huv
    obtain hu | hu := mem_append.mp hu <;> obtain hv | hv := mem_append.mp hv
    · exact hn.slip_unique hu hv huv
    · cases mem_singleton.mp hv
      exact absurd huv (hfresh u hu)
    · cases mem_singleton.mp hu
      exact absurd huv.symm (hfresh v hv)
    · rw [mem_singleton.mp hu, mem_singleton.mp hv]
  · intro w d id hd hid
    obtain ⟨u, hu, h⟩ := hn.pending_slip hd hid
    exact ⟨u, mem_append_left _ hu, h⟩
  · intro w d u hd hu hid
    obtain hu | hu := mem_append.mp hu
    · exact hn.waiting_unwritten hd hu hid
    · rwa [mem_singleton.mp hu]
  · intro id hid
    obtain ⟨hh, hne⟩ := hheld id hid
    refine ⟨(hn.held_fresh hh).1, fun u hu ↦ ?_⟩
    obtain hu | hu := mem_append.mp hu
    · exact (hn.held_fresh hh).2 u hu
    · rw [mem_singleton.mp hu]
      exact Ne.symm hne

theorem addDesk {i : Nat} {seat : Option WorkerId × Nat}
    (hi : m.seats[i]? = some seat) (hseat : d.seat = i) (hgen : d.generation = seat.2 + 1)
    (hnodup : d.pending.Nodup)
    (hslip : ∀ id ∈ d.pending, ∃ t ∈ m.slips, t.id = id ∧ t.seat = d.seat ∧ t.generation = d.generation)
    (hwait : ∀ t ∈ m.slips, t.id ∈ d.waiting → t.written = []) :
    { m with desks := m.desks ++ [d]
             seats := m.seats.set i (some m.desks.length, seat.2 + 1) }.Numbered held := by
  have hlen := lt_of_getElem? hi
  have hcases {v : WorkerId} {e : Desk} (h : (m.desks ++ [d])[v]? = some e) :
      m.desks[v]? = some e ∨ (v = m.desks.length ∧ e = d) := getElem?_concat_cases h
  -- the seat of an older worker has not yet seen the generation of the new one
  have hold {v : WorkerId} {e : Desk} (h : m.desks[v]? = some e) (hs : e.seat = i) : e.generation ≠ seat.2 + 1 := by
    obtain ⟨seat', hi', hle⟩ := hn.generation_le h
    rw [hs, hi] at hi'
    cases hi'
    exact Nat.ne_of_lt (Nat.lt_succ_of_le hle)
  refine ⟨?_, ?_, ?_, hn.slip_lt, hn.slip_unique, ?_, ?_, ?_, hn.held_fresh⟩
  · intro j v g h
    simp only [List.getElem?_set, hlen, if_true] at h
    split at h
    · rename_i hij
      cases h
      exact ⟨d, List.getElem?_concat_length, hseat.trans hij, hgen⟩
    · obtain ⟨e, he, hs, hg⟩ := hn.seated h
      exact ⟨e, List.getElem?_append_left (lt_of_getElem? he) ▸ he, hs, hg⟩
  · intro v e h
    simp only [List.getElem?_set, hlen, if_true]
    obtain h | ⟨rfl, rfl⟩ := hcases h
    · obtain ⟨seat', hi', hle⟩ := hn.generation_le h
      split
      · rename_i hs
        rw [← hs, hi] at hi'
        cases hi'
        exact ⟨_, rfl, Nat.le_succ_of_le hle⟩
      · exact ⟨seat', hi', hle⟩
    · rw [if_pos hseat.symm]
      exact ⟨_, rfl, Nat.le_of_eq hgen⟩
  · intro u v e f he hf hs hg
    obtain he' | ⟨rfl, rfl⟩ := hcases he <;> obtain hf' | ⟨rfl, rfl⟩ := hcases hf
    · exact hn.desk_unique he' hf' hs hg
    · exact absurd (hg.trans hgen) (hold he' (hs.trans hseat))
    · exact absurd (hg.symm.trans hgen) (hold hf' (hs.symm.trans hseat))
    · rfl
  · intro v e h
    obtain h | ⟨rfl, rfl⟩ := hcases h
    · exact hn.pending_nodup h
    · exact hnodup
  · intro v e id h hid
    obtain h | ⟨rfl, rfl⟩ := hcases h
    · exact hn.pending_slip h hid
    · exact hslip id hid
  · intro v e t h ht hid
    obtain h | ⟨rfl, rfl⟩ := hcases h
    · exact hn.waiting_unwritten h ht hid
    · exact hwait t ht hid

theorem start {i : Nat} {seat : Option WorkerId × Nat} (hi : m.seats[i]? = some seat) (linter : Option Linter) :
    (m.start i (seat.2 + 1) linter).Numbered held := by
  cases hl : m.linter with
  | none =>
    have hstart := hn.addDesk (d := ⟨i, seat.2 + 1, linter, [], none⟩) hi rfl rfl .nil
      (fun _ h ↦ by cases h) fun _ _ h ↦ by cases h
    simpa [Mailroom.start, replay, hl] using hstart
  | some L =>
    let t : Slip := ⟨m.nextId, i, seat.2 + 1, []⟩
    let d : Desk := ⟨i, seat.2 + 1, linter, [.analyze m.nextId (.initLinter L) false], none⟩
    have hfresh : ∀ u ∈ m.slips, u.id ≠ t.id := fun u hu ↦ Nat.ne_of_lt (hn.slip_lt hu)
    have hnumber : { m with nextId := m.nextId + 1 }.Numbered fun id ↦ held id ∨ id = m.nextId :=
      hn.number fun _ h ↦ h
    have hslip : { m with nextId := m.nextId + 1, slips := m.slips ++ [t] }.Numbered held :=
      hnumber.addSlip (Nat.lt_succ_self _) hfresh rfl fun id h ↦ ⟨.inl h, Nat.ne_of_lt (hn.held_fresh h).1⟩
    have hpending : d.pending = [t.id] := rfl
    have hwaiting : d.waiting = [t.id] := rfl
    have hstart := hslip.addDesk (d := d) hi rfl rfl (hpending ▸ pairwise_singleton _ _)
      (fun id h ↦ ⟨t, mem_append_right _ (mem_singleton_self t),
        (mem_singleton.mp (hpending ▸ h)).symm, rfl, rfl⟩) fun u hu h ↦ by
        obtain hu | hu := mem_append.mp hu
        · exact absurd (mem_singleton.mp (hwaiting ▸ h)) (hfresh u hu)
        · rw [mem_singleton.mp hu]
    simpa [Mailroom.start, replay, hl] using hstart

theorem deliver {i g : Nat} (hi : m.seats[i]? = some (some w, g))
    (hd : m.desks[w]? = some d) (hid : held id) (hheld : ∀ id', held' id' → held id' ∧ id' ≠ id)
    (request : Request) (streaming : Bool) :
    (m.deliver i g w d id request streaming).Numbered held' := by
  obtain ⟨d₀, hd₀, rfl, rfl⟩ := hn.seated hi
  cases hd.symm.trans hd₀
  let t : Slip := ⟨id, d.seat, d.generation, []⟩
  let d' : Desk := { d with inbox := d.inbox ++ [.analyze id request streaming] }
  have hfresh := (hn.held_fresh hid).2
  have hslip : { m with slips := m.slips ++ [t] }.Numbered held' :=
    hn.addSlip (hn.held_fresh hid).1 hfresh rfl hheld
  have hpending : d'.pending = d.pending ++ [id] := d.pending_put id request streaming
  have hwaiting : d'.waiting = d.waiting ++ [id] := d.waiting_put id request streaming
  have hnew : id ∉ d.pending := by
    intro h
    obtain ⟨u, hu, huid, -⟩ := hn.pending_slip hd h
    exact hfresh u hu huid
  refine (Numbered.setDesk hslip hd rfl rfl ?_ ?_ ?_ : (Mailroom.setDesk _ w d').Numbered held')
  · rw [hpending]
    exact nodup_append.mpr ⟨hn.pending_nodup hd, pairwise_singleton _ _,
      fun a ha b hb ↦ by rw [mem_singleton.mp hb]; exact fun he ↦ hnew (he ▸ ha)⟩
  · intro id' h
    rw [hpending] at h
    obtain h | h := mem_append.mp h
    · exact hslip.pending_slip hd h
    · exact ⟨t, mem_append_right _ (mem_singleton_self t), (mem_singleton.mp h).symm, rfl, rfl⟩
  · intro u hu h
    rw [hwaiting] at h
    obtain h | h := mem_append.mp h
    · exact hslip.waiting_unwritten hd hu h
    · obtain hu | hu := mem_append.mp hu
      · exact absurd (mem_singleton.mp h) (hfresh u hu)
      · rw [mem_singleton.mp hu]

theorem absent (hd : m.desks[w]? = some d) (hp : id ∈ d.pending)
    (hp' : id ∉ d'.pending) : (m.setDesk w d').Absent id := by
  intro v e he hid
  obtain ⟨rfl, rfl⟩ | ⟨hv, he⟩ := setDesk_cases hd he
  · exact hp' hid
  · exact hv (hn.pending_unique he hd hid hp)

theorem head_not_mem (hd : m.desks[w]? = some d) {rest : List RequestId}
    (hp : d.pending = id :: rest) : id ∉ rest := by
  have hnodup := hn.pending_nodup hd
  rw [hp] at hnodup
  exact (nodup_cons.mp hnodup).1

theorem shift [Digest] {σ : Type} {engine : RuleEngine σ} {said : List (RequestId × Reply)}
    (h : m.Shift engine said m') : m'.Numbered held := by
  cases h.shrinks with
  | stay => exact hn
  | quiet hd hless => exact hn.shrink hd hless.seat hless.generation hless.pending hless.waiting
  | serve hd hless hp rs =>
    refine (hn.shrink hd hless.seat hless.generation hless.pending hless.waiting).say (fun he hid ↦ ?_) rs
    obtain ⟨rfl, rfl⟩ | ⟨hv, he⟩ := setDesk_cases hd he
    · exact hn.head_not_mem hd hp hid
    · exact hv (hn.pending_unique he hd (mem_append_right _ hid) (hp ▸ mem_cons_self))

end

end Numbered

theorem start_cases {j g : Nat} {linter : Option Linter} (h : (m.start j g linter).desks[v]? = some e) :
    m.desks[v]? = some e ∨ (v = m.desks.length ∧ e = ⟨j, g, linter, m.replay, none⟩) :=
  getElem?_concat_cases h

theorem replay_linter {message : Message} (h : message ∈ m.replay) :
    ∃ M, m.linter = some M ∧ message = .analyze m.nextId (.initLinter M) false := by
  unfold replay at h
  split at h
  · rename_i M hM
    exact ⟨M, hM, mem_singleton.mp h⟩
  · cases h

theorem deliver_cases {j g : Nat} {request : Request} {streaming : Bool} (hd : m.desks[w]? = some d)
    (h : (m.deliver j g w d id request streaming).desks[v]? = some e) :
    (v = w ∧ e = { d with inbox := d.inbox ++ [.analyze id request streaming] }) ∨ (v ≠ w ∧ m.desks[v]? = some e) :=
  setDesk_cases (m := m) hd h

theorem Numbered.vacant {σ : Type} (count : Nat) (disk : Disk) (hheld : ∀ id, ¬ held id) :
    ({ disk, seats := List.replicate count {} } : Pool σ).mailroom.Numbered held := by
  refine ⟨fun {i w g} h ↦ ?_, nofun, nofun, nofun, nofun, nofun, nofun, nofun, fun h ↦ (hheld _ h).elim⟩
  simp only [Pool.mailroom, map_replicate, List.getElem?_replicate] at h
  split at h <;> cases h

theorem Prepared.numbered {fresh : WorkerId → Nat → Option Linter} {j : Nat}
    (h : Prepared fresh j m m') (hn : m.Numbered held) : m'.Numbered held := by
  induction h with
  | ready m => exact hn
  | start hi _ ih => exact ih (hn.start hi _)

end Mailroom

end AnalysisServer
