import AnalysisServer.Proofs.System.History
import AnalysisServer.Proofs.System.Moves

namespace AnalysisServer

open List

open Mailroom

variable {σ : Type}

section Mail

variable [Digest] {setup : PoolSetup σ} {s : System σ} {x y : Call} {q : Pool σ} {engine : RuleEngine σ}
  {recorded : RequestId → Request → Bool → Prop} {journal : List Happening} {timeouts : List Nat}
  {seats c : Nat}

theorem Call.InOrder.numbered {p : Pool σ} (ho : x.InOrder p) (hm : p.mailroom.Journaled engine recorded journal) :
    p.mailroom.Numbered fun id ↦ x.stage.number? = some id := by
  refine hm.hold fun id hid ↦ ⟨(ho.fresh hid).1, fun t ht htid ↦ (ho.fresh hid).2 ?_⟩
  obtain ⟨u, hu, rfl⟩ := mem_map.mp ht
  exact Pool.mem_ids.mpr ⟨u, hu, htid⟩

theorem Call.Step.journaled (h : x.Step setup s q y)
    (hm : s.pool.mailroom.Journaled engine recorded journal) (ho : x.InOrder s.pool)
    (hx : x.Stands timeouts journal seats c) :
    q.mailroom.Journaled engine (fun id r b ↦ recorded id r b ∨ id ∈ x.gained y ∧ r = x.request ∧ b = x.sending)
      (journal ++ (x.gained y).map (.sent c x.stage.target)) := by
  have hkept {q : Pool σ} {y : Call} (hg : x.gained y = [])
      (hq : q.mailroom.Journaled engine recorded journal) : q.mailroom.Journaled engine
        (fun id r b ↦ recorded id r b ∨ id ∈ x.gained y ∧ r = x.request ∧ b = x.sending)
        (journal ++ (x.gained y).map (.sent c x.stage.target)) := by
    rw [hg]
    simpa using hq
  have hnumber := ho.numbered hm
  have hsent {i : Nat} {id : RequestId} (hid : x.stage.number? = some id) (hi : x.stage.target = i)
      {q : Pool σ} {y : Call} (hy : id ∈ y.tickets)
      (hd : Delivered setup i id x x.sending s.pool.mailroom q.mailroom) : q.mailroom.Journaled engine
        (fun id r b ↦ recorded id r b ∨ id ∈ x.gained y ∧ r = x.request ∧ b = x.sending)
        (journal ++ (x.gained y).map (.sent c x.stage.target)) := by
    obtain ⟨m₁, w, g, d, hprep, hseat, hd, hq⟩ := hd
    rw [Call.gained_of_mem hid hy, hi, hq]
    have hdeliver : (m₁.deliver i g w d id x.request x.sending).Journaled engine _
        (journal ++ [id].map (.sent c i)) :=
      (Journaled.prepared hprep hm).deliver (hprep.numbered hnumber) hid hseat hd
    simpa using hdeliver
  unfold Call.Stands at hx
  cases h with
  | accept h hd | turnAway h hr ha | gathered h | gatherUnsent h =>
    exact hkept (Call.gained_of_stage h rfl) hm
  | remember h hr =>
    refine hkept (Call.gained_of_stage h rfl) ?_
    unfold Pool.remember
    split
    · exact hm.setLinter _
    · exact hm
  | choose h hr =>
    refine hkept (Call.gained_of_stage h rfl) ?_
    rwa [System.mailroom_choose]
  | number h hq | spreadNumber h hs hq =>
    refine hkept (Call.gained_of_stage h rfl) ?_
    rw [(Pool.giveNumber_ok hq).2]
    exact hm.number
  | numberRefused h hq | spreadClosed h hs hq =>
    rw [Pool.giveNumber_error hq]
    exact hkept (Call.gained_of_stage h rfl) hm
  | send h hq =>
    simp only [h] at hx
    have hsending : x.sending = x.streaming := by simp [Call.sending, hx.1]
    refine hsent (by rw [h]; rfl) (congrArg Stage.target h) (by simp [Call.tickets]) ?_
    rw [hsending]
    exact System.delivered_of_enqueue hq
  | sendRefused h hq =>
    exact hkept (Call.gained_of_subset ho (by rintro _ ⟨⟩)) (.prepared (System.prepared_of_enqueue hq) hm)
  | hearPart h hq | gatherPart h hq | gatherHear h hq =>
    refine hkept (Call.gained_of_stage h rfl) ?_
    rwa [(Pool.mailroom_hear hq).1]
  | hear h hq =>
    refine hkept (Call.gained_of_stage h rfl) ?_
    rwa [Pool.mailroom_detach, (Pool.mailroom_hear hq).1]
  | spreadSend h hs hq =>
    simp only [h] at hx
    have hsending : x.sending = false := by simp [Call.sending, hx.1]
    refine hsent (by rw [h]; rfl) (congrArg Stage.target h) (by simp [Call.tickets, Except.toOption]) ?_
    rw [hsending]
    exact System.delivered_of_enqueue hq
  | spreadRefused h hs hq =>
    exact hkept (Call.gained_of_refused ho h _) (.prepared (System.prepared_of_enqueue hq) hm)
  | gather h hs => exact hkept (Call.gained_of_gather ho h) hm

end Mail

section Histories

variable [Digest]

namespace System

variable {setup : SystemSetup σ} {s s' t : System σ} {journal journal' : List Happening} {count c : Nat}
  {timeouts : List Nat} {x y : Call} {e : Event}

def happenings (setup : SystemSetup σ) (s : System σ) (e : Event) (s' : System σ) : List Happening :=
  match e with
  | .work w => sayings (s.pool.utters setup.engine w)
  | .call c =>
    match s.calls[c]?, s'.calls[c]? with
    | some x, some y => (x.gained y).map (.sent c x.stage.target)
    | _, _ => []
  | _ => []

/-- Whatever may come of a system, with the journal of it. -/
inductive History (setup : SystemSetup σ) (s : System σ) : List Happening → System σ → Prop
  | refl : History setup s [] s
  | call {journal : List Happening} {t : System σ} (h : History setup s journal t) (request : Request)
      (streaming : Bool) (router : Option Nat) :
      History setup s journal (t.begin { request, streaming, router }).2
  | shutdown {journal : List Happening} {t : System σ} (h : History setup s journal t)
      (router grace : Nat) : History setup s journal (t.beginShutdown router grace).2
  | step {journal : List Happening} {t u : System σ} {e : Event} (h : History setup s journal t)
      (hstep : t.step setup e = some u) : History setup s (journal ++ t.happenings setup e u) u

def recount (setup : SystemSetup σ) :
    List Deed → List Happening × System σ → Option (List Happening × System σ)
  | [], r => some r
  | .call request streaming router :: rest, (journal, s) =>
    recount setup rest (journal, (s.begin { request, streaming, router }).2)
  | .shutdown router grace :: rest, (journal, s) =>
    recount setup rest (journal, (s.beginShutdown router grace).2)
  | .event e :: rest, (journal, s) =>
    (s.step setup e).bind fun s' ↦ recount setup rest (journal ++ s.happenings setup e s', s')

theorem History.recount {deeds : List Deed} (h : History setup s journal t)
    (hr : recount setup deeds (journal, t) = some (journal', s')) : History setup s journal' s' := by
  induction deeds generalizing journal t with
  | nil =>
    cases hr
    exact h
  | cons d rest ih =>
    cases d with
    | call request streaming router => exact ih (h.call request streaming router) hr
    | shutdown router grace => exact ih (h.shutdown router grace) hr
    | event e =>
      obtain ⟨u, hu, hr⟩ := Option.bind_eq_some_iff.mp hr
      exact ih (h.step hu) hr

def recorded (s : System σ) (journal : List Happening) (id : RequestId) (r : Request) (b : Bool) : Prop :=
  ∃ c seat x, .sent c seat id ∈ journal ∧ s.calls[c]? = some x ∧ r = x.request ∧ b = x.sending

structure Faithful (setup : SystemSetup σ) (count : Nat) (timeouts : List Nat)
    (journal : List Happening) (s : System σ) : Prop where
  order : s.InOrder
  mail : s.pool.mailroom.Journaled setup.engine (s.recorded journal) journal
  sent {c seat : Nat} {id : RequestId} : .sent c seat id ∈ journal → c < s.calls.length
  owner {c c' seat seat' : Nat} {id : RequestId} : .sent c seat id ∈ journal →
    .sent c' seat' id ∈ journal → c = c' ∧ seat = seat'
  terms : s.routers.map Router.timeout = timeouts
  seats : s.pool.seats.length = count
  call {c : Nat} {x : Call} : s.calls[c]? = some x → x.Told timeouts journal count c

theorem Faithful.opened (setup : SystemSetup σ) (count : Nat) (disk : Disk) (timeouts : List Nat) :
    (opened setup count disk timeouts).Faithful setup (max count 1) timeouts [] := by
  have hmail : (System.opened setup count disk timeouts).pool.mailroom.Journaled setup.engine
      (fun _ _ _ ↦ False) [] := by
    refine Pool.mailroom_start setup.toPoolSetup ?_ fun m i seat linter hi hm ↦ hm.start hi linter
    exact ⟨.vacant _ _ fun _ h ↦ h, ⟨by simp, by simp, by simp⟩, by rintro _ ⟨⟩, by simp, by simp⟩
  have hseats : (System.opened setup count disk timeouts).pool.mailroom.seats.length = max count 1 := by
    refine Pool.mailroom_start setup.toPoolSetup (P := fun m ↦ m.seats.length = max count 1) ?_ ?_
    · simp [Pool.mailroom]
    · exact fun m i seat linter hi hm ↦ length_set.trans hm
  refine ⟨.opened setup count disk timeouts, hmail.mono ?_, by simp, by simp, ?_, ?_, fun h ↦ by cases h⟩
  · rintro _ _ _ ⟨_, _, _, h, _⟩
    cases h
  · simp [System.opened, Function.comp_def]
  · simpa [Pool.mailroom] using hseats

namespace Faithful

section

variable (hs : s.Faithful setup count timeouts journal) {q : Pool σ}

include hs

section

variable (horder : s'.InOrder) (hcalls : s'.calls = s.calls)
  (hterms : s'.routers.map Router.timeout = s.routers.map Router.timeout)
  (hseats : s'.pool.seats.length = s.pool.seats.length)

include horder hcalls hterms hseats

theorem background (hsent : ∀ c seat id, .sent c seat id ∈ journal' ↔ .sent c seat id ∈ journal)
    (hmail : s'.pool.mailroom.Journaled setup.engine (s.recorded journal) journal')
    (hext : ∀ c x, s.calls[c]? = some x → Call.Extends journal journal' c) :
    s'.Faithful setup count timeouts journal' := by
  refine ⟨horder, hmail.mono fun id r b ⟨c, seat, x, hs', hx, hr⟩ ↦ ?_, fun hs' ↦ ?_, fun h h' ↦ ?_,
    hterms.trans hs.terms, hseats.trans hs.seats, fun {c x} hx ↦ ?_⟩
  · exact ⟨c, seat, x, (hsent _ _ _).mp hs', hcalls ▸ hx, hr⟩
  · rw [hcalls]
    exact hs.sent ((hsent _ _ _).mp hs')
  · exact hs.owner ((hsent _ _ _).mp h) ((hsent _ _ _).mp h')
  · rw [hcalls] at hx
    exact (hs.call hx).extends (hext c x hx)

theorem quiet (hmail : s.pool.mailroom.Asked s'.pool.mailroom) : s'.Faithful setup count timeouts (journal ++ []) := by
  rw [append_nil]
  exact hs.background horder hcalls hterms hseats (fun _ _ _ ↦ .rfl) (hs.mail.asked hmail)
    fun _ _ _ ↦ ⟨.rfl, fun _ ↦ prefix_rfl, fun _ _ ↦ rfl⟩

end

section

variable (hx : s.calls[c]? = some x) (hb : s.Becomes s' c q y) (hsame : x.Same y) (horder : s'.InOrder)
  (hseats : q.seats.length = s.pool.seats.length)

include hx hb hsame horder hseats

theorem becomes {ids : List RequestId} {seat : Nat}
    (hnew : ∀ id ∈ ids, ∀ t ∈ s.pool.mailroom.slips, t.id ≠ id) (hmail : q.mailroom.Journaled setup.engine
      (fun id r b ↦ s.recorded journal id r b ∨ id ∈ ids ∧ r = x.request ∧ b = x.sending)
      (journal ++ ids.map (.sent c seat)))
    (hy : y.Told timeouts (journal ++ ids.map (.sent c seat)) count c) :
    s'.Faithful setup count timeouts (journal ++ ids.map (.sent c seat)) := by
  have hlt := lt_of_getElem? hx
  have hcases {c' seat' id} (h : Happening.sent c' seat' id ∈ journal ++ ids.map (.sent c seat)) :
      .sent c' seat' id ∈ journal ∨ (c' = c ∧ seat' = seat ∧ id ∈ ids) := by
    obtain h | h := mem_append.mp h
    · exact .inl h
    · obtain ⟨id', hid, heq⟩ := mem_map.mp h
      cases heq
      exact .inr ⟨rfl, rfl, hid⟩
  have hfresh {c' seat' id} (hid : id ∈ ids) (h : .sent c' seat' id ∈ journal) :
      False := by
    have hcall := List.getElem?_eq_getElem (hs.sent h)
    obtain ⟨t, ht, htid⟩ := hs.mail.known ⟨c', seat', _, h, hcall, rfl, rfl⟩
    exact hnew id hid t ht htid
  have hlength : s'.calls.length = s.calls.length := by rw [hb.calls, length_set]
  refine ⟨horder, ?_, fun h ↦ ?_, fun h h' ↦ ?_, hb.delays.trans hs.terms, ?_, fun {c' z} hz ↦ ?_⟩
  · rw [hb.pool]
    refine hmail.mono fun id r b ⟨c', seat', z, h, hz, hr⟩ ↦ ?_
    obtain ⟨rfl, rfl⟩ | ⟨hc, hz⟩ := hb.calls_cases hx hz
    · rw [Call.sending, hsame.request, hsame.streaming] at hr
      exact (hcases h).imp (fun h ↦ ⟨_, seat', x, h, hx, hr⟩) fun h ↦ ⟨h.2.2, hr⟩
    · exact .inl ⟨c', seat', z, (hcases h).resolve_right fun h ↦ hc h.1, hz, hr⟩
  · rw [hlength]
    obtain h | ⟨rfl, -⟩ := hcases h
    · exact hs.sent h
    · exact hlt
  · obtain hold | ⟨hc, hseat, hid⟩ := hcases h <;> obtain hold' | ⟨hc', hseat', hid'⟩ := hcases h'
    · exact hs.owner hold hold'
    · exact (hfresh hid' hold).elim
    · exact (hfresh hid hold').elim
    · exact ⟨hc.trans hc'.symm, hseat.trans hseat'.symm⟩
  · rw [hb.pool]
    exact hseats.trans hs.seats
  · obtain ⟨rfl, rfl⟩ | ⟨hc, hz⟩ := hb.calls_cases hx hz
    · exact hy
    · refine (hs.call hz).extends ⟨⟨fun h ↦ (hcases h).resolve_right fun h ↦ hc h.1,
        mem_append_left _⟩, fun _ ↦ ?_, fun _ _ ↦ replies_sent _ _ _⟩
      exact (replies_sent _ _ _).symm ▸ prefix_rfl

theorem endCall (hq : q.mailroom = s.pool.mailroom)
    (hy : y.Told timeouts journal count c) : s'.Faithful setup count timeouts (journal ++ []) := by
  have hmail : q.mailroom.Journaled setup.engine
      (fun id r b ↦ s.recorded journal id r b ∨ id ∈ [] ∧ r = x.request ∧ b = x.sending)
      (journal ++ [].map (.sent c 0)) := by simpa [hq] using hs.mail
  exact hs.becomes hx hb hsame horder hseats (by simp) hmail (by simpa using hy)

end

theorem callStep (hx : s.calls[c]? = some x) (hstep : x.Step setup.toPoolSetup s q y) (hb : s.Becomes s' c q y)
    (horder : s'.InOrder) (hseats : s'.pool.seats.length = s.pool.seats.length) :
    s'.Faithful setup count timeouts (journal ++ s.happenings setup (.call c) s') := by
  have hrec (seat : Nat) (id : RequestId) (hsent : .sent c seat id ∈ journal) :
      s.recorded journal id x.request x.sending := ⟨c, seat, x, hsent, hx, rfl, rfl⟩
  have ho := hs.order.call hx
  have htold := hs.call hx
  rw [← hs.seats] at htold
  simp only [happenings, hx, hb.call hx]
  refine hs.becomes hx hb hstep.same horder (hb.pool ▸ hseats) (fun id hid t ht htid ↦ ?_)
    (hstep.journaled hs.mail ho htold.stands) ?_
  · obtain ⟨hid, -⟩ := mem_filter.mp hid
    obtain ⟨u, hu, rfl⟩ := mem_map.mp ht
    exact (ho.fresh (Option.mem_toList.mp hid)).2 (Pool.mem_ids.mpr ⟨u, hu, htid⟩)
  · rw [← hs.seats]
    exact hstep.told hs.order.pool hs.mail ho htold hrec hs.terms

theorem work {w : WorkerId} {pool : Pool σ}
    (h : s.pool.workerStep setup.engine w = some pool) (horder : { s with pool }.InOrder)
    (hseats : pool.seats.length = s.pool.seats.length) :
    { s with pool }.Faithful setup count timeouts
      (journal ++ sayings (s.pool.utters setup.engine w)) := by
  have hshift := Pool.workerStep_shift h
  have hsent (c seat : Nat) (id : RequestId) :
      .sent c seat id ∈ journal ++ sayings (s.pool.utters setup.engine w) ↔ .sent c seat id ∈ journal := by
    simp [not_sent_sayings]
  refine hs.background horder rfl rfl hseats hsent (hs.mail.shift hshift) fun c x hx ↦ ?_
  refine ⟨hsent _ _ _, fun _ ↦ ?_, fun hid ho ↦ ?_⟩
  · rw [replies_append]
    exact prefix_append _ _
  · exact hs.mail.silent hshift ⟨c, _, x, hid, hx, rfl, rfl⟩ ho

theorem step (h : s.step setup e = some s') :
    s'.Faithful setup count timeouts (journal ++ s.happenings setup e s') := by
  obtain ⟨horder, mine, hfollows⟩ := hs.order.step h
  have hseats := hfollows.seatCount
  have hasked {m} (hm : m = s.pool.mailroom) : s.pool.mailroom.Asked m := hm ▸ .nobody
  cases proceeds_of_step h with
  | work hq => exact hs.work hq horder hseats
  | monitor hq => exact hs.quiet horder rfl rfl hseats (hasked (Pool.mailroom_monitorStep hq))
  | replay hq => exact hs.quiet horder rfl rfl hseats (hasked (Pool.mailroom_replayStep hq))
  | drain hq => exact hs.quiet horder rfl rfl hseats (hasked (Pool.mailroom_drainStep hq))
  | call hx hstep hb => exact hs.callStep hx hstep hb horder hseats
  | timeUp hx _ hwake hb =>
    refine hs.endCall hx hb (Call.same_ended _ _) horder (hb.pool ▸ hseats) (Pool.mailroom_detachAll _) ?_
    obtain hnone | ⟨r, hr, hd⟩ := (hs.call hx).timed
    · simp [Deadline.wake, hnone] at hwake
    · exact (hs.call hx).ended (.timeout hr hd)
  | abandon hx _ hb =>
    exact hs.endCall hx hb (Call.same_ended _ _) horder (hb.pool ▸ hseats) (Pool.mailroom_detachAll _)
      (hs.call hx).abandoned
  | beginClose hq => exact hs.quiet horder rfl rfl hseats (hasked (Pool.mailroom_beginClose hq))
  | close hq => exact hs.quiet horder rfl rfl hseats (Pool.mailroom_closeStep hq)
  | graceOver hq => exact hs.quiet horder rfl rfl hseats (hasked (Pool.mailroom_graceOver hq))
  | shutdown hcalls hpool hdelays | drainOver hcalls hpool hdelays =>
    exact hs.quiet horder hcalls hdelays hseats (hasked (by rw [hpool]))
  | shutdownClose hcalls hq hdelays =>
    exact hs.quiet horder hcalls hdelays hseats (hasked (Pool.mailroom_beginClose hq))
  | pass => exact hs.quiet horder rfl rfl hseats .nobody

theorem begin (request : Request) (streaming : Bool) (router : Option Nat) :
    (s.begin { request, streaming, router }).2.Faithful setup count timeouts journal := by
  have hlength : (s.begin { request, streaming, router }).2.calls.length = s.calls.length + 1 :=
    length_append
  refine ⟨hs.order.begin request streaming router, hs.mail.mono fun id r b ⟨c, seat, x, h, hx, hr⟩ ↦ ?_,
    fun h ↦ ?_, hs.owner, hs.terms, hs.seats, fun {c x} hx ↦ ?_⟩
  · obtain hx | ⟨rfl, -⟩ := getElem?_concat_cases hx
    · exact ⟨c, seat, x, h, hx, hr⟩
    · exact (Nat.lt_irrefl _ (hs.sent h)).elim
  · rw [hlength]
    exact Nat.lt_succ_of_lt (hs.sent h)
  · obtain hx | ⟨rfl, rfl⟩ := getElem?_concat_cases hx
    · exact hs.call hx
    · have hnone (seat : Nat) (id : RequestId) : .sent s.calls.length seat id ∉ journal :=
        fun h ↦ Nat.lt_irrefl _ (hs.sent h)
      exact ⟨.inl rfl, fun h ↦ (hnone _ _ h).elim, fun _ ↦ rfl, fun _ h ↦ (hnone _ _ h).elim, hnone⟩

end

theorem history (hs : s.Faithful setup count timeouts []) (h : History setup s journal t) :
    t.Faithful setup count timeouts journal := by
  induction h with
  | refl => exact hs
  | call _ request streaming router ih => exact ih.begin request streaming router
  | shutdown _ router grace ih =>
    exact ⟨⟨ih.order.pool, ih.order.call, ih.order.apart, ih.order.started⟩, ih.mail, ih.sent, ih.owner,
      ih.terms, ih.seats, ih.call⟩
  | step _ hstep ih => exact ih.step hstep

end Faithful

/-- In every history a number is used by one call only, and what its caller has heard is the beginning of what
is to be said to the request. An outcome is the end of it, or the request was lost, or its time was over. -/
theorem outcome_of_own_request {disk : Disk}
    (h : History setup (opened setup count disk timeouts) journal s) (hx : s.calls[c]? = some x) :
    (∀ seat id, .sent c seat id ∈ journal → (∀ c' seat', .sent c' seat' id ∈ journal → c' = c) ∧
        Session.Replies setup.engine x.request x.sending (replies journal id) ∧
        x.heard.map .part <+: replies journal id) ∧
      ((∀ seat id, .sent c seat id ∉ journal) → x.heard = []) ∧
      (x.request.isBroadcast = false → ∀ seat seat' id id', .sent c seat id ∈ journal →
        .sent c seat' id' ∈ journal → id = id') ∧
      (∀ outcome, x.outcome? = some outcome → x.Accounted timeouts journal (max count 1) c outcome) ∧
      (x.isOpen = false → ∀ s', Run setup s s' → s'.calls[c]? = some x) := by
  have hs := (Faithful.opened setup count disk timeouts).history h
  have htold := hs.call hx
  refine ⟨fun seat id hsent ↦ ⟨fun c' seat' hsent' ↦ (hs.owner hsent' hsent).1, ?_, htold.heard hsent⟩,
    htold.unheard, fun hr _ _ _ _ ↦ htold.one hr, fun _ ↦ htold.accounted, fun hclosed s' hrun ↦ ?_⟩
  · exact hs.mail.served ⟨c, seat, x, hsent, hx, rfl, rfl⟩
  · obtain ⟨y, hy, -, hstays⟩ := hrun.call_stays hx
    rw [hy, hstays hclosed]

end System

end Histories

namespace System

def calmSetup : SystemSetup (List Path) where
  engine := .silent
  session _ _ := { options := {}, engine := [] }
  affinity _ := 0
  closeGrace := 0

def lateAnswer : List Deed :=
  calling (.initLinter bareLinter) (some 0)
      [.call 0, .call 0, .call 0, .call 0, .call 0, .work 0, .work 0, .call 0, .call 0] ++
    calling styleRequest (some 0) [.call 1, .call 1, .call 1, .call 1, .work 0, .pass 5, .timeUp 1] ++
    calling styleRequest (some 0) [.call 2, .call 2, .call 2, .call 2, .work 0, .work 0, .work 0, .call 2]

def isAnsweredLate (journal : List Happening) (s : System (List Path)) : Bool :=
  journal.any (fun h ↦ h matches .sent 1 0 2) && (replies journal 2).length == 1 &&
    match s.calls[1]?, s.calls[2]? with
    | some x, some y =>
      (x.outcome? matches some (.error (.timeout 5))) && (y.outcome? matches some (.ok _))
    | _, _ => false

theorem outcome_of_own_request_late : ∃ journal s x,
    History calmSetup (opened calmSetup 1 {} [5]) journal s ∧ s.calls[1]? = some x ∧
      x.outcome? = some (.error (.timeout 5)) ∧ .sent 1 0 2 ∈ journal ∧
      (replies journal 2).length = 1 ∧ (∀ c seat, .sent c seat 2 ∈ journal → c = 1) ∧
      (∀ s', Run calmSetup s s' → s'.calls[1]? = some x) ∧
      ∃ y response, s.calls[2]? = some y ∧ y.outcome? = some (.ok response) ∧
        y.Accounted [5] journal 1 2 (.ok response) := by
  have hcheck : (recount calmSetup lateAnswer ([], opened calmSetup 1 {} [5])).any
      fun r ↦ isAnsweredLate r.1 r.2 := by decide +kernel
  obtain ⟨⟨journal, s⟩, hr, hlate⟩ := (Option.any_eq_true _ _).mp hcheck
  have h := History.refl.recount hr
  simp only [isAnsweredLate, Bool.and_eq_true, beq_iff_eq] at hlate
  obtain ⟨⟨hsent, hlength⟩, hcalls⟩ := hlate
  have hmem : .sent 1 0 2 ∈ journal := by
    obtain ⟨entry, hentry, hmatch⟩ := any_eq_true.mp hsent
    split at hmatch
    · exact hentry
    · cases hmatch
  split at hcalls
  · rename_i x y hx hy
    simp only [Bool.and_eq_true] at hcalls
    obtain ⟨htimeout, hok⟩ := hcalls
    obtain ⟨hnumbers, -, -, -, hstays⟩ := outcome_of_own_request h hx
    obtain ⟨-, -, -, haccount, -⟩ := outcome_of_own_request h hy
    have hover : x.outcome? = some (.error (.timeout 5)) := by
      split at htimeout
      · assumption
      · cases htimeout
    obtain ⟨response, hresponse⟩ : ∃ response, y.outcome? = some (.ok response) := by
      split at hok
      · exact ⟨_, by assumption⟩
      · cases hok
    exact ⟨journal, s, x, h, hx, hover, hmem, hlength, (hnumbers 0 2 hmem).1,
      hstays (Call.closed_of_outcome hover), y,
      response, hy, hresponse, haccount _ hresponse⟩
  · cases hcalls

end System

end AnalysisServer
