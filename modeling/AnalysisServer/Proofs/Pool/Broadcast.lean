import AnalysisServer.Proofs.Pool.Queues

namespace AnalysisServer

open List

def Message.linter? : Message → Option Linter
  | analyze _ request _ => request.linter?
  | close => none

/-- A worker has a certain linter or none, and no other waits on its desk. -/
structure Desk.Tuned (L : Linter) (d : Desk) : Prop where
  linter : d.linter = some L ∨ d.linter = none
  inbox {message : Message} {M : Linter} : message ∈ d.inbox → message.linter? = some M → M = L

namespace Session

variable {σ : Type} [Digest] {engine : RuleEngine σ} {request : Request} {streaming : Bool} {progress : Progress}
  {w w' : Workspace σ}

theorem begin_plain (hr : request.IsPlain) (h : begin engine request streaming w = (progress, w')) :
    (∃ L, request = .initLinter L ∧ progress = .done (.ok .ack) ∧ w'.session.linter = some L) ∨
      w'.session.linter = w.session.linter ∧ ((∃ e, progress = .done (.error e)) ∨
        request.file?.isSome ∧ w.session.linter.isSome ∧ ∃ unit, progress = .more (.file unit)) := by
  obtain ⟨L, rfl⟩ | ⟨input, kind, hfile⟩ := hr
  · obtain ⟨_, hb, hl⟩ | ⟨e, _, hb, hl⟩ := begin_initLinter engine L streaming w
    · cases h.symm.trans hb
      exact .inl ⟨L, rfl, rfl, hl⟩
    · cases h.symm.trans hb
      exact .inr ⟨hl, .inl ⟨e, rfl⟩⟩
  · obtain ⟨unit, _, hb, hl, hsome⟩ | ⟨e, _, hb, hl⟩ := begin_file engine hfile streaming w
    · cases h.symm.trans hb
      exact .inr ⟨hl, .inr ⟨hfile ▸ rfl, hsome, unit, rfl⟩⟩
    · cases h.symm.trans hb
      exact .inr ⟨hl, .inl ⟨e, rfl⟩⟩

end Session

namespace Mailroom

variable {m m' : Mailroom} {L : Linter} {w v : WorkerId} {d e : Desk} {i : Nat} {id : RequestId}
  {held : RequestId → Prop} {fresh : WorkerId → Nat → Option Linter} {j : Nat}

def Installed (m : Mailroom) (L : Linter) (i : Nat) : Prop :=
  ∀ ⦃w : WorkerId⦄ ⦃g : Nat⦄ ⦃d : Desk⦄, m.seats[i]? = some (some w, g) → m.desks[w]? = some d → d.Tuned L

/-- A request for a linter is on its way to a seat: it waits there as the last thing on the desk, or it
waits nowhere, and then it was answered well only by a worker that has the linter now. -/
structure Sent (m : Mailroom) (L : Linter) (i : Nat) (id : RequestId) : Prop where
  slip : ∃ t ∈ m.slips, t.id = id
  state : (∃ w g d before, m.seats[i]? = some (some w, g) ∧ m.desks[w]? = some d ∧
      d.inbox = before ++ [Message.analyze id (.initLinter L) false]) ∨
    m.Absent id ∧ ∀ t ∈ m.slips, ∀ response, t.id = id → .final (.ok response) ∈ t.written → m.Installed L i

theorem mem_waiting_of_last {before : List Message} {request : Request} {streaming : Bool}
    (hin : d.inbox = before ++ [Message.analyze id request streaming]) : id ∈ d.waiting := by
  rw [Desk.waiting, hin, filterMap_append]
  exact mem_append_right _ (.head _)

section Shifts

variable {σ : Type} [Digest] {engine : RuleEngine σ} {said : List (RequestId × Reply)}

section

variable (h : m.Shift engine said m')

include h

theorem Shift.frame : m'.seats = m.seats ∧ m'.linter = m.linter := by
  cases h.shrinks <;> exact ⟨rfl, rfl⟩

/-- What the step of a worker can do to plain mail. -/
theorem Shift.desks {P : Desk → Prop} (hp : m.Plain) (install : ∀ d id linter streaming rest, P d → d.work = none →
      d.inbox = .analyze id (.initLinter linter) streaming :: rest →
      P { d with inbox := rest, linter := some linter, work := none })
    (refuse : ∀ d message rest, P d → d.work = none → d.inbox = message :: rest →
      P { d with inbox := rest, work := none })
    (enter : ∀ d id request streaming rest unit, P d → d.work = none → d.linter.isSome →
      request.file?.isSome → d.inbox = .analyze id request streaming :: rest →
      P { d with inbox := rest, work := some ⟨id, .file unit⟩ })
    (leave : ∀ d job, P d → d.work = some job → P { d with work := none })
    (drop : ∀ d, P d → P { d with inbox := [] })
    (hm : ∀ d, m.desks[v]? = some d → P d) (he : m'.desks[v]? = some e) : P e := by
  have hset {w d d'} (hd : m.desks[w]? = some d) (hd' : P d → P d')
      (he : (m.setDesk w d').desks[v]? = some e) : P e := by
    obtain ⟨rfl, rfl⟩ | ⟨-, he⟩ := setDesk_cases hd he
    · exact hd' (hm _ hd)
    · exact hm e he
  cases h with
  | stay => exact hm e he
  | begin hd hw hin hl hb =>
    refine hset hd (fun hP ↦ ?_) he
    obtain ⟨_, _, _, heq, hplain⟩ := (hp hd).inbox (hin ▸ mem_cons_self)
    cases heq
    obtain ⟨L, rfl, rfl, hl'⟩ | ⟨hl', ⟨e, rfl⟩ | ⟨hfile, hsome, unit, rfl⟩⟩ := Session.begin_plain hplain hb
    · rw [hl']
      exact install _ _ _ _ _ hP hw hin
    · rw [hl', hl]
      exact refuse _ _ _ hP hw hin
    · rw [hl', hl]
      exact enter _ _ _ _ _ unit hP hw (hl ▸ hsome) hfile hin
  | step hd hw hl hs =>
    refine hset hd (fun hP ↦ ?_) he
    obtain ⟨⟨unit, htask⟩, -⟩ := (hp hd).work hw
    rw [htask] at hs
    obtain ⟨rfl, -, outcome, hdone⟩ := Session.step_file hs
    rw [hl, hdone]
    exact leave _ _ hP hw
  | fail hd hw hs | crash hd hw => exact hset hd (fun hP ↦ leave _ _ hP hw) he
  | close hd hw hin =>
    obtain ⟨_, _, _, heq, -⟩ := (hp hd).inbox (hin ▸ mem_cons_self)
    cases heq
  | drop hd => exact hset hd (drop _) he

theorem Shift.plain (hp : m.Plain) : m'.Plain := by
  intro v e he
  refine h.desks (P := Desk.Plain) hp ?_ ?_ ?_ ?_ ?_ (fun _ hd ↦ hp hd) he
  · intro d id linter streaming rest hd hw hin
    exact ⟨fun h ↦ hd.inbox (hin ▸ .tail _ h), fun h ↦ by cases h⟩
  · intro d message rest hd hw hin
    exact ⟨fun h ↦ hd.inbox (hin ▸ .tail _ h), fun h ↦ by cases h⟩
  · intro d id request streaming rest unit hd hw hl hr hin
    refine ⟨fun h ↦ hd.inbox (hin ▸ .tail _ h), fun h ↦ ?_⟩
    cases h
    exact ⟨⟨unit, rfl⟩, hl⟩
  · exact fun d job hd hw ↦ ⟨hd.inbox, fun h ↦ by cases h⟩
  · exact fun d hd ↦ ⟨fun h ↦ (nomatch h), hd.work⟩

theorem Shift.tuned (hp : m.Plain) (hm : ∀ d, m.desks[v]? = some d → d.Tuned L)
    (he : m'.desks[v]? = some e) : e.Tuned L := by
  refine h.desks (P := Desk.Tuned L) hp ?_ ?_ ?_ ?_ ?_ hm he
  · intro d id linter streaming rest hd hw hin
    refine ⟨.inl ?_, fun h ↦ hd.inbox (hin ▸ .tail _ h)⟩
    have hL : linter = L := hd.inbox (hin ▸ mem_cons_self) rfl
    rw [hL]
  · intro d message rest hd hw hin
    exact ⟨hd.linter, fun h ↦ hd.inbox (hin ▸ .tail _ h)⟩
  · intro d id request streaming rest unit hd hw hl hr hin
    exact ⟨hd.linter, fun h ↦ hd.inbox (hin ▸ .tail _ h)⟩
  · exact fun d job hd hw ↦ ⟨hd.linter, hd.inbox⟩
  · exact fun d hd ↦ ⟨hd.linter, fun h ↦ (nomatch h)⟩

end

theorem Installed.shift (hi : m.Installed L i) (h : m.Shift engine said m') (hp : m.Plain) : m'.Installed L i := by
  intro w g e hs he
  rw [h.frame.1] at hs
  exact h.tuned hp (fun d hd ↦ hi hs hd) he

theorem Sent.shift (hs : m.Sent L i id) (hn : m.Numbered held) (hp : m.Plain) (h : m.Shift engine said m') :
    m'.Sent L i id := by
  obtain ⟨t₀, ht₀, rfl⟩ := hs.slip
  refine ⟨?_, ?_⟩
  · rw [h.slips]
    exact ⟨_, mem_map_of_mem ht₀, rfl⟩
  obtain ⟨w, g, d, before, hseat, hd, hin⟩ | ⟨habs, hinst⟩ := hs.state
  · have hwait := mem_waiting_of_last hin
    have hpend : t₀.id ∈ d.pending := mem_append_right _ hwait
    have hunwritten {t} (ht : t ∈ m.slips) (hid : t.id = t₀.id) : t.written = [] :=
      hn.waiting_unwritten hd ht (hid ▸ hwait)
    -- as long as the request lies on the desk of the seat, only the worker there can take it
    have hlies {v d₁ d'} (hd₁ : m.desks[v]? = some d₁)
        (h' : w = v → ∃ before, d'.inbox = before ++ [.analyze t₀.id (.initLinter L) false]) :
        ∃ w g d before, m.seats[i]? = some (some w, g) ∧ (m.setDesk v d').desks[w]? = some d ∧
          d.inbox = before ++ [.analyze t₀.id (.initLinter L) false] := by
      by_cases hv : w = v
      · obtain ⟨before', hin'⟩ := h' hv
        exact ⟨v, g, d', before', hv ▸ hseat, desks_setDesk_self hd₁, hin'⟩
      · exact ⟨w, g, d, before, hseat, (desks_setDesk_of_ne hv).trans hd, hin⟩
    cases h with
    | stay => exact .inl ⟨w, g, d, before, hseat, hd, hin⟩
    | @begin v d₁ _ _ _ _ _ space _ hd₁ hw₁ hin₁ hl hb =>
      by_cases hv : w = v
      · subst hv
        cases hd.symm.trans hd₁
        cases before with
        | nil =>
          cases hin.symm.trans hin₁
          have hnot := hn.head_not_mem hd (Desk.pending_of_inbox hw₁ hin)
          obtain ⟨_, hb', hl'⟩ | ⟨e, _, hb', -⟩ := Session.begin_initLinter engine L false space
          · cases hb.symm.trans hb'
            refine .inr ⟨hn.absent hd hpend hnot, fun _ _ _ _ _ w' g' e hseat' he ↦ ?_⟩
            cases hseat.symm.trans hseat'
            cases (desks_setDesk_self hd).symm.trans he
            exact ⟨.inl hl', fun h ↦ (nomatch h)⟩
          · cases hb.symm.trans hb'
            refine .inr ⟨hn.absent hd hpend hnot, fun t ht response hid hok ↦ ?_⟩
            obtain ⟨u, hu, rfl⟩ := mem_slips_say.mp ht
            simp [Slip.add, hunwritten hu hid, Progress.final] at hok
        | cons b bs =>
          cases hin.symm.trans hin₁
          exact .inl (hlies hd₁ fun _ ↦ ⟨bs, rfl⟩)
      · exact .inl (hlies hd₁ fun heq ↦ absurd heq hv)
    | @step v d₁ _ _ _ _ hd₁ | @fail v d₁ _ _ _ hd₁ | @crash v d₁ _ hd₁ =>
      refine .inl (hlies hd₁ fun hv ↦ ⟨before, ?_⟩)
      subst hv
      cases hd.symm.trans hd₁
      exact hin
    | close hd₁ hw₁ hin₁ =>
      obtain ⟨_, _, _, heq, -⟩ := (hp hd₁).inbox (hin₁ ▸ mem_cons_self)
      cases heq
    | @drop v d₁ hd₁ =>
      by_cases hv : w = v
      · subst hv
        cases hd.symm.trans hd₁
        refine .inr ⟨hn.absent hd hpend fun hmem ↦ ?_, fun t ht response hid hok ↦ ?_⟩
        · obtain hmem | hmem := mem_append.mp hmem
          · exact (nodup_append.mp (hn.pending_nodup hd)).2.2 _ hmem _ hwait rfl
          · cases hmem
        · rw [hunwritten ht hid] at hok
          cases hok
      · exact .inl (hlies hd₁ fun heq ↦ absurd heq hv)
  · refine .inr ⟨habs.shift h, fun t ht response hid hok ↦ ?_⟩
    rw [h.slips] at ht
    obtain ⟨u, hu, rfl⟩ := mem_map.mp ht
    have hnone : replies (sayings said) u.id = [] := replies_eq_nil fun reply hsaid ↦ by
      obtain ⟨v, e, he, hpend⟩ := h.said_pending (mem_sayings.mp hsaid)
      exact habs he (hid ▸ hpend)
    rw [hnone, append_nil] at hok
    exact Installed.shift (hinst u hu response hid hok) h hp

end Shifts

section Start

variable {held : RequestId → Prop} {j g : Nat} {linter : Option Linter}

theorem desks_start (h : m.desks[v]? = some e) : (m.start j g linter).desks[v]? = some e :=
  (List.getElem?_append_left (lt_of_getElem? h)).trans h

theorem Plain.start (hp : m.Plain) : (m.start j g linter).Plain := by
  intro v e he
  obtain he | ⟨-, rfl⟩ := start_cases he
  · exact hp he
  · refine ⟨fun h ↦ ?_, fun h ↦ by cases h⟩
    obtain ⟨M, -, rfl⟩ := replay_linter h
    exact ⟨_, _, _, rfl, .inl ⟨M, rfl⟩⟩

theorem Installed.start (hi : m.Installed L i) (hL : m.linter = some L) : (m.start j g none).Installed L i := by
  intro w g' e hseat he
  obtain he | ⟨-, rfl⟩ := start_cases he
  · simp only [Mailroom.start, List.getElem?_set] at hseat
    split at hseat
    · split at hseat
      · cases hseat
        exact absurd (lt_of_getElem? he) (Nat.lt_irrefl _)
      · cases hseat
    · exact hi hseat he
  · refine ⟨.inr rfl, fun h hM ↦ ?_⟩
    obtain ⟨M, hM', rfl⟩ := replay_linter h
    cases hL.symm.trans hM'
    exact (Option.some.inj hM).symm

theorem Sent.start (hs : m.Sent L i id) (hn : m.Numbered held) (hij : i ≠ j)
    (hL : m.linter = some L) : (m.start j g none).Sent L i id := by
  obtain ⟨t₀, ht₀, rfl⟩ := hs.slip
  refine ⟨⟨t₀, mem_append_left _ ht₀, rfl⟩, ?_⟩
  obtain ⟨w, g', d, before, hseat, hd, hin⟩ | ⟨habs, hinst⟩ := hs.state
  · refine .inl ⟨w, g', d, before, ?_, desks_start hd, hin⟩
    exact (List.getElem?_set_ne (Ne.symm hij)).trans hseat
  · refine .inr ⟨fun w d hd hid ↦ ?_, fun t ht response hid hok ↦ ?_⟩
    · obtain hd | ⟨-, rfl⟩ := start_cases hd
      · exact habs hd hid
      · have hnext : t₀.id = m.nextId := by
          simpa [Desk.pending, Desk.waiting, replay, hL, Message.id?] using hid
        exact Nat.ne_of_lt (hn.slip_lt ht₀) hnext
    · obtain ht | ht := mem_append.mp ht
      · exact Installed.start (hinst t ht response hid hok) hL
      · obtain ⟨-, -, rfl⟩ := mem_map.mp ht
        cases hok

end Start

section Deliver

variable {held : RequestId → Prop} {j g : Nat} {u : WorkerId} {d₁ : Desk} {id₁ : RequestId}
  {request : Request} {streaming : Bool}

theorem Plain.deliver (hp : m.Plain) (hd₁ : m.desks[u]? = some d₁) (hr : request.IsPlain) :
    (m.deliver j g u d₁ id₁ request streaming).Plain := by
  intro v e he
  obtain ⟨rfl, rfl⟩ | ⟨-, he⟩ := deliver_cases hd₁ he
  · refine ⟨fun h ↦ ?_, (hp hd₁).work⟩
    obtain h | h := mem_append.mp h
    · exact (hp hd₁).inbox h
    · exact ⟨_, _, _, mem_singleton.mp h, hr⟩
  · exact hp he

theorem Installed.deliver (hi : m.Installed L i) (hd₁ : m.desks[u]? = some d₁)
    (hr : ∀ M, request.linter? = some M → M = L) :
    (m.deliver j g u d₁ id₁ request streaming).Installed L i := by
  intro w g' e hseat he
  obtain ⟨rfl, rfl⟩ | ⟨-, he⟩ := deliver_cases hd₁ he
  · refine ⟨(hi hseat hd₁).linter, fun h hM ↦ ?_⟩
    obtain h | h := mem_append.mp h
    · exact (hi hseat hd₁).inbox h hM
    · rw [mem_singleton.mp h] at hM
      exact hr _ hM
  · exact hi hseat he

theorem Sent.deliver (hs : m.Sent L i id) (hn : m.Numbered held) (hij : i ≠ j)
    (hj : m.seats[j]? = some (some u, g)) (hd₁ : m.desks[u]? = some d₁) (hid₁ : held id₁)
    (hr : ∀ M, request.linter? = some M → M = L) :
    (m.deliver j g u d₁ id₁ request streaming).Sent L i id := by
  obtain ⟨t₀, ht₀, rfl⟩ := hs.slip
  have hne : t₀.id ≠ id₁ := (hn.held_fresh hid₁).2 t₀ ht₀
  refine ⟨⟨t₀, mem_append_left _ ht₀, rfl⟩, ?_⟩
  obtain ⟨w, g', d, before, hseat, hd, hin⟩ | ⟨habs, hinst⟩ := hs.state
  · have hw : w ≠ u := by
      rintro rfl
      obtain ⟨e, he, hei, -⟩ := hn.seated hseat
      obtain ⟨f, hf, hfj, -⟩ := hn.seated hj
      cases he.symm.trans hf
      exact hij (hei.symm.trans hfj)
    exact .inl ⟨w, g', d, before, hseat, (desks_setDesk_of_ne (m := m) hw).trans hd, hin⟩
  · refine .inr ⟨fun w d hd hid ↦ ?_, fun t ht response hid hok ↦ ?_⟩
    · obtain ⟨rfl, rfl⟩ | ⟨-, hd⟩ := deliver_cases hd₁ hd
      · rw [Desk.pending_put] at hid
        obtain hid | hid := mem_append.mp hid
        · exact habs hd₁ hid
        · exact hne (mem_singleton.mp hid)
      · exact habs hd hid
    · obtain ht | ht := mem_append.mp ht
      · exact Installed.deliver (hinst t ht response hid hok) hd₁ hr
      · cases mem_singleton.mp ht
        cases hok

theorem Sent.new (hj : m.seats[j]? = some (some u, g)) (hd₁ : m.desks[u]? = some d₁) :
    (m.deliver j g u d₁ id₁ (.initLinter L) false).Sent L j id₁ :=
  ⟨⟨_, mem_append_right _ (mem_singleton_self _), rfl⟩,
    .inl ⟨u, g, _, d₁.inbox, hj, desks_setDesk_self (m := m) hd₁, rfl⟩⟩

end Deliver

section

variable (h : Prepared fresh j m m')

include h

theorem Prepared.linter : m'.linter = m.linter := by
  induction h with
  | ready m => rfl
  | start hi _ ih => exact ih

theorem Prepared.seats : m'.seats.length = m.seats.length := by
  induction h with
  | ready m => rfl
  | start hi _ ih => exact ih.trans length_set

theorem Prepared.plain (hp : m.Plain) : m'.Plain := by
  induction h with
  | ready m => exact hp
  | start hi _ ih => exact ih hp.start

theorem Prepared.installed (hfresh : ∀ w i, fresh w i = none) (hL : m.linter = some L)
    (hi : m.Installed L i) : m'.Installed L i := by
  induction h with
  | ready m => exact hi
  | start hseat _ ih =>
    refine ih hL ?_
    rw [hfresh]
    exact hi.start hL

theorem Prepared.sent (hfresh : ∀ w i, fresh w i = none) (hn : m.Numbered held)
    (hij : i ≠ j) (hL : m.linter = some L) (hs : m.Sent L i id) : m'.Sent L i id := by
  induction h with
  | ready m => exact hs
  | start hseat _ ih =>
    refine ih (hn.start hseat _) hL ?_
    rw [hfresh]
    exact hs.start hn hij hL

end

end Mailroom

end AnalysisServer
