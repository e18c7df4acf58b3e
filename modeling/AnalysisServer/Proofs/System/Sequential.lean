import AnalysisServer.Proofs.System.Moves
import AnalysisServer.Proofs.System.Runs

/-!
Sequential histories: plain requests, each of which has come to its end before the next one begins, while workers and
those who watch them go on in any order.
-/

namespace AnalysisServer

open List

/-- Nobody gives a request up, and nothing is shut down. -/
def Event.IsOrdinary : Event → Prop
  | .work _ | .monitor _ | .replay _ | .drain _ | .call _ | .pass _ => True
  | _ => False

/-- A request for a linter is for all workers, and any other plain request for one. -/
def Stage.Fits (r : Request) : Stage → Prop
  | .chosen _ | .numbered _ _ | .waiting _ => r.linter? = none
  | .spreading _ _ _ | .gathering _ _ => r.linter?.isSome
  | _ => True

def Mailroom.Reached (m : Mailroom) (L : Linter) : Stage → Prop
  | .spreading seat _ sent => m.linter = some L ∧ sent.length = seat ∧ seat ≤ m.seats.length ∧
      ∀ i id, sent[i]? = some (.ok id) → m.Sent L i id
  | .gathering left failure => m.linter = some L ∧ ∃ done, (done ++ left).length = m.seats.length ∧
      (∀ i id, (done ++ left)[i]? = some (.ok id) → m.Sent L i id) ∧
      (failure = none → ∀ i, i < done.length → m.Installed L i)
  | .finished outcome => m.linter = some L ∧ ((∃ response, outcome = .ok response) → ∀ i, m.Installed L i)
  | _ => True

namespace System

variable {σ : Type}

/-- What may come of a system if plain requests are made one after the other. -/
inductive Sequential [Digest] (setup : SystemSetup σ) (s : System σ) : System σ → Prop
  | refl : Sequential setup s s
  | begin {t x} (h : Sequential setup s t)
      (hover : ∀ y ∈ t.calls, y.isOpen = false) (hx : x.stage = .arrived) (hr : x.request.IsPlain) :
      Sequential setup s (t.begin x).2
  | step {t u e} (h : Sequential setup s t) (he : e.IsOrdinary)
      (hstep : t.step setup e = some u) : Sequential setup s u

def Holds (s : System σ) (id : RequestId) : Prop :=
  ∃ (c : Nat) (x : Call), s.calls[c]? = some x ∧ x.stage.number? = some id

structure IsLast (s : System σ) (c : Nat) (x : Call) (L : Linter) : Prop where
  call : s.calls[c]? = some x
  request : x.request = .initLinter L
  later {c' : Nat} {y : Call} : c < c' → s.calls[c']? = some y → y.request.linter? = none

structure Steady (s : System σ) : Prop where
  numbered : s.pool.mailroom.Numbered s.Holds
  plain : s.pool.mailroom.Plain
  routers {r : Router} : r ∈ s.routers → r.accepting = true
  request {c : Nat} {x : Call} : s.calls[c]? = some x → x.request.IsPlain
  fits {c : Nat} {x : Call} : s.calls[c]? = some x → x.stage.Fits x.request
  current {c : Nat} {x : Call} : s.calls[c]? = some x → x.isOpen → c + 1 = s.calls.length
  reached {c : Nat} {x : Call} {L : Linter} : s.IsLast c x L → s.pool.mailroom.Reached L x.stage

end System

namespace Mailroom

variable {m m' : Mailroom} {L : Linter} {held : RequestId → Prop} {stage : Stage}

theorem Reached.shift {σ : Type} [Digest] {engine : RuleEngine σ} {said : List (RequestId × Reply)}
    (hr : m.Reached L stage) (hn : m.Numbered held) (hp : m.Plain) (h : m.Shift engine said m') :
    m'.Reached L stage := by
  obtain ⟨hseats, hlinter⟩ := h.frame
  cases stage with
  | spreading seat id sent =>
    obtain ⟨hl, hlen, hle, hsent⟩ := hr
    exact ⟨hlinter.trans hl, hlen, hseats ▸ hle, fun i id hi ↦ (hsent i id hi).shift hn hp h⟩
  | gathering left failure =>
    obtain ⟨hl, done, hlen, hsent, hdone⟩ := hr
    exact ⟨hlinter.trans hl, done, hseats ▸ hlen, fun i id hi ↦ (hsent i id hi).shift hn hp h,
      fun hf i hi ↦ Installed.shift (hdone hf i hi) h hp⟩
  | finished outcome =>
    exact ⟨hlinter.trans hr.1, fun hok i ↦ Installed.shift (hr.2 hok i) h hp⟩
  | _ => trivial

theorem Sent.installed {i : Nat} {id : RequestId} (hs : m.Sent L i id) (hn : m.Numbered held)
    (ha : m.AnsweredWell id) : m.Installed L i := by
  obtain ⟨t, ht, rfl, response, hok⟩ := ha
  obtain ⟨w, g, d, before, hseat, hd, hin⟩ | ⟨-, hinst⟩ := hs.state
  · rw [hn.waiting_unwritten hd ht (mem_waiting_of_last hin)] at hok
    cases hok
  · exact hinst t ht response rfl hok

end Mailroom

theorem Request.IsPlain.isBroadcast_eq {r : Request} (h : r.IsPlain) : r.isBroadcast = r.linter?.isSome := by
  obtain ⟨linter, rfl⟩ | ⟨input, kind, hf⟩ := h
  · rfl
  · cases r <;> cases hf <;> rfl

namespace Call

open Mailroom

variable {σ : Type} {setup : PoolSetup σ} {m m' : Mailroom} {x : Call} {L : Linter}

theorem visited_plain (h : m.Visited setup x m') (hr : x.request.IsPlain) (hp : m.Plain) : m'.Plain := by
  cases h with
  | send hid hd =>
    obtain ⟨m₁, w, g, d, hprep, hseat, hd, rfl⟩ := hd
    exact (hprep.plain hp).deliver hd hr
  | refused hprep => exact hprep.plain hp
  | _ => exact hp

theorem visited_finished (h : m.Visited setup x m') (hfresh : ∀ w i, setup.fresh w i = none)
    (hl : x.request.linter? = none) {outcome : Except AnalysisError Response}
    (hr : m.Reached L (.finished outcome)) : m'.Reached L (.finished outcome) := by
  obtain ⟨hL, hinst⟩ := hr
  have hprep {i m₁} (hprep : Prepared setup.fresh i m m₁) : m₁.Reached L (.finished outcome) :=
    ⟨hprep.linter.trans hL, fun hok i ↦ hprep.installed hfresh hL (hinst hok i)⟩
  cases h with
  | remember hr =>
    rw [hr] at hl
    cases hl
  | send hid hd =>
    obtain ⟨m₁, w, g, d, hprep', hseat, hd, rfl⟩ := hd
    obtain ⟨hL₁, hinst₁⟩ := hprep hprep'
    refine ⟨hL₁, fun hok i ↦ Installed.deliver (hinst₁ hok i) hd fun M hM ↦ ?_⟩
    rw [hl] at hM
    cases hM
  | refused hp' => exact hprep hp'
  | stay | number => exact ⟨hL, hinst⟩

theorem prepared_sent {seat : Nat} {sent : List (Except AnalysisError RequestId)}
    {held : RequestId → Prop} (hprep : Prepared setup.fresh seat m m')
    (hfresh : ∀ w i, setup.fresh w i = none) (hn : m.Numbered held) (hL : m.linter = some L)
    (hlen : sent.length = seat) (hsent : ∀ i id, sent[i]? = some (.ok id) → m.Sent L i id)
    {i : Nat} {id : RequestId} (hi : sent[i]? = some (.ok id)) : m'.Sent L i id := by
  have hne : i ≠ seat := Nat.ne_of_lt (hlen ▸ (lt_of_getElem? hi))
  exact hprep.sent hfresh hn hne hL (hsent i id hi)

theorem reached_send {seat : Nat} {id : RequestId} {sent : List (Except AnalysisError RequestId)}
    (hm : m.Reached L (.spreading seat (some id) sent)) (hfresh : ∀ w i, setup.fresh w i = none)
    (hn : m.Numbered fun id' ↦ some id = some id') (hs : seat < m.seats.length)
    (hr : x.request = .initLinter L) (hd : Delivered setup seat id x false m m') :
    m'.Reached L (.spreading (seat + 1) none (sent ++ [Except.ok id])) := by
  obtain ⟨hL, hlen, -, hsent⟩ := hm
  obtain ⟨m₁, w, g, d, hprep, hseat, hd, rfl⟩ := hd
  rw [hr]
  refine ⟨hprep.linter.trans hL, by rw [length_append, hlen]; rfl, hprep.seats ▸ hs, fun i id' hi ↦ ?_⟩
  obtain hi' | ⟨rfl, hid⟩ := getElem?_concat_cases hi
  · have hne : i ≠ seat := Nat.ne_of_lt (hlen ▸ (lt_of_getElem? hi'))
    refine (prepared_sent hprep hfresh hn hL hlen hsent hi').deliver (hprep.numbered hn) hne hseat hd rfl fun M hM ↦ ?_
    exact (Option.some.inj hM).symm
  · cases hid
    rw [hlen]
    exact .new hseat hd

theorem reached_gather {a : Except AnalysisError RequestId}
    {rest : List (Except AnalysisError RequestId)} {failure failure' : Option AnalysisError}
    {held : RequestId → Prop} (hn : m.Numbered held)
    (hm : m.Reached L (.gathering (a :: rest) failure))
    (hf : failure' = none → failure = none ∧ ∃ id, a = .ok id ∧ m.AnsweredWell id) :
    m.Reached L (.gathering rest failure') := by
  obtain ⟨hL, done, hlen, hsent, hdone⟩ := hm
  have happ : done ++ a :: rest = (done ++ [a]) ++ rest := append_cons done a rest
  refine ⟨hL, done ++ [a], happ ▸ hlen, happ ▸ hsent, fun hnone i hi ↦ ?_⟩
  obtain ⟨hnone', id, rfl, ha⟩ := hf hnone
  rw [length_append] at hi
  obtain hi | rfl := Nat.lt_succ_iff_lt_or_eq.mp hi
  · exact hdone hnone' i hi
  · have hat : (done ++ .ok id :: rest)[done.length]? = some (.ok id) := by simp
    exact (hsent _ id hat).installed hn ha

variable [Digest] {s : System σ} {q : Pool σ} {y : Call}

theorem Step.fits (h : x.Step setup s q y) (hr : x.request.IsPlain)
    (hf : x.stage.Fits x.request) : y.stage.Fits x.request := by
  have hbroadcast : x.request.isBroadcast = x.request.linter?.isSome := hr.isBroadcast_eq
  cases h with
  | remember h hb => exact hbroadcast.symm.trans hb
  | choose h hb =>
    rw [hbroadcast] at hb
    exact Option.not_isSome_iff_eq_none.mp (Bool.eq_false_iff.mp hb)
  | accept | turnAway | numberRefused | sendRefused | hear | gathered => trivial
  | hearPart | gatherPart => exact hf
  | _ h =>
    rwa [h] at hf

theorem Step.advances (h : x.Step setup s q y) (hfresh : ∀ w i, setup.fresh w i = none)
    (hrouters : ∀ r ∈ s.routers, r.accepting = true)
    (hn : s.pool.mailroom.Numbered fun id ↦ x.stage.number? = some id)
    (hr : x.request = .initLinter L) (hfits : x.stage.Fits x.request)
    (hm : s.pool.mailroom.Reached L x.stage) : q.mailroom.Reached L y.stage := by
  have hseats : s.pool.mailroom.seats.length = s.pool.seats.length := length_map _
  have hfits' (hnone : x.request.linter? = none) : False := by
    rw [hr] at hnone
    cases hnone
  cases h with
  | accept h => trivial
  | turnAway h hr ha => exact absurd (hrouters _ hr) ha
  | remember h hb =>
    rw [hr]
    exact ⟨rfl, rfl, Nat.zero_le _, fun i id hi ↦ by cases hi⟩
  | choose h hb =>
    rw [hr] at hb
    cases hb
  | number h | numberRefused h | send h | sendRefused h | hearPart h | hear h =>
    exact (hfits' (by rw [h] at hfits; exact hfits)).elim
  | spreadNumber h hs hq =>
    rw [h] at hm
    obtain ⟨hL, hlen, hle, hsent⟩ := hm
    rw [(Pool.giveNumber_ok hq).2]
    exact ⟨hL, hlen, hle, fun i id hi ↦ ⟨(hsent i id hi).slip, (hsent i id hi).state⟩⟩
  | spreadClosed h hs hq =>
    rw [h] at hm
    obtain ⟨hL, hlen, hle, hsent⟩ := hm
    rw [Pool.giveNumber_error hq]
    refine ⟨hL, by rw [length_append, hlen]; rfl, hseats ▸ hs, fun i id hi ↦ ?_⟩
    obtain hi | ⟨-, hi⟩ := getElem?_concat_cases hi
    · exact hsent i id hi
    · cases hi
  | spreadSend h hs hq =>
    rw [h] at hm hn
    exact reached_send hm hfresh hn (hseats ▸ hs) hr (System.delivered_of_enqueue hq)
  | spreadRefused h hs hq =>
    rw [h] at hm
    obtain ⟨hL, hlen, -, hsent⟩ := hm
    have hprep := System.prepared_of_enqueue hq
    refine ⟨hprep.linter.trans hL, by rw [length_append, hlen]; rfl, hprep.seats ▸ hseats ▸ hs, fun i id hi ↦ ?_⟩
    obtain hi | ⟨-, hi⟩ := getElem?_concat_cases hi
    · exact prepared_sent hprep hfresh hn hL hlen hsent hi
    · cases hi
  | gather h hs =>
    rw [h] at hm
    obtain ⟨hL, hlen, hle, hsent⟩ := hm
    exact ⟨hL, [], hlen.trans (Nat.le_antisymm hle (hseats ▸ hs)), hsent, fun _ i hi ↦ by cases hi⟩
  | @gathered failure h =>
    rw [h] at hm
    obtain ⟨hL, done, hlen, -, hdone⟩ := hm
    rw [append_nil] at hlen
    refine ⟨hL, fun ⟨response, hok⟩ i w g d hseat hd ↦ ?_⟩
    have hi : i < done.length := hlen ▸ (lt_of_getElem? hseat)
    exact hdone (by cases failure <;> trivial) i hi hseat hd
  | gatherUnsent h => exact reached_gather hn (h ▸ hm) fun hnone ↦ by cases hnone
  | gatherPart h hq =>
    rw [(Pool.mailroom_hear hq).1]
    exact hm
  | @gatherHear _ _ _ outcome _ h hq =>
    rw [(Pool.mailroom_hear hq).1]
    refine reached_gather hn (h ▸ hm) fun hnone ↦ ?_
    cases outcome with
    | ok => exact ⟨hnone, _, rfl, System.answeredWell_of_hear hq⟩
    | error => cases hnone

end Call

namespace Pool

open Mailroom

variable {σ : Type} (setup : PoolSetup σ)

theorem start_numbered (count : Nat) (disk : Disk) (held : RequestId → Prop) (hheld : ∀ id, ¬ held id) :
    (start setup count disk).mailroom.Numbered held ∧ (start setup count disk).mailroom.Plain := by
  refine mailroom_start setup (P := fun m ↦ m.Numbered held ∧ m.Plain) ⟨.vacant _ _ hheld, ?_⟩ ?_
  · exact fun _ _ h ↦ by cases h
  · exact fun m i seat linter hi hm ↦ ⟨hm.1.start hi linter, hm.2.start⟩

end Pool

namespace System

open Mailroom

variable {σ : Type} {s : System σ}

theorem Steady.opened (setup : SystemSetup σ) (count : Nat) (disk : Disk) (timeouts : List Nat) :
    (opened setup count disk timeouts).Steady := by
  have hnone {c : Nat} {x : Call} : (System.opened setup count disk timeouts).calls[c]? ≠ some x :=
    fun h ↦ by cases h
  obtain ⟨hn, hp⟩ := Pool.start_numbered setup.toPoolSetup count disk
    (System.opened setup count disk timeouts).Holds fun _ ⟨_, _, h, _⟩ ↦ hnone h
  refine ⟨hn, hp, fun hr ↦ ?_, fun h ↦ (hnone h).elim, fun h ↦ (hnone h).elim, fun h ↦ (hnone h).elim,
    fun h ↦ (hnone h.call).elim⟩
  obtain ⟨_, _, rfl⟩ := mem_map.mp hr
  rfl

theorem Steady.of_mail (hs : s.Steady) {pool : Pool σ} (now : Nat) (hn : pool.mailroom.Numbered s.Holds)
    (hp : pool.mailroom.Plain)
    (hr : ∀ L stage, s.pool.mailroom.Reached L stage → pool.mailroom.Reached L stage) :
    { s with pool, now }.Steady :=
  ⟨hn, hp, hs.routers, hs.request, hs.fits, hs.current, fun hl ↦ hr _ _ (hs.reached ⟨hl.call, hl.request, hl.later⟩)⟩

theorem Steady.begin (hs : s.Steady) {x : Call} (hover : ∀ y ∈ s.calls, y.isOpen = false)
    (hx : x.stage = .arrived) (hr : x.request.IsPlain) : (s.begin x).2.Steady := by
  have hcases {c y} (h : (s.calls ++ [x])[c]? = some y) :
      s.calls[c]? = some y ∨ (c = s.calls.length ∧ y = x) := getElem?_concat_cases h
  have hold {c y} (h : s.calls[c]? = some y) : (s.calls ++ [x])[c]? = some y :=
    (List.getElem?_append_left (lt_of_getElem? h)).trans h
  refine ⟨?_, hs.plain, hs.routers, fun h ↦ ?_, fun h ↦ ?_, fun {c y} h hopen ↦ ?_, fun {c y L} hl ↦ ?_⟩
  · refine hs.numbered.mono fun id ⟨c, y, hy, hid⟩ ↦ ?_
    obtain hy | ⟨-, rfl⟩ := hcases hy
    · exact ⟨c, y, hy, hid⟩
    · rw [hx] at hid
      cases hid
  · obtain h | ⟨-, rfl⟩ := hcases h
    · exact hs.request h
    · exact hr
  · obtain h | ⟨-, rfl⟩ := hcases h
    · exact hs.fits h
    · rw [hx]
      trivial
  · obtain h | ⟨rfl, -⟩ := hcases h
    · rw [hover y (mem_of_getElem? h)] at hopen
      cases hopen
    · show s.calls.length + 1 = (s.calls ++ [x]).length
      rw [length_append, length_singleton]
  · obtain h | ⟨-, rfl⟩ := hcases hl.call
    · exact hs.reached ⟨h, hl.request, fun hlt hy ↦ hl.later hlt (hold hy)⟩
    · rw [hx]
      trivial

variable [Digest]

theorem Steady.call (hs : s.Steady) {setup : PoolSetup σ} (hfresh : ∀ w i, setup.fresh w i = none)
    {s' : System σ} {c : Nat} {x y : Call} {q : Pool σ} (hx : s.calls[c]? = some x) (hstep : x.Step setup s q y)
    (hb : s.Becomes s' c q y) : s'.Steady := by
  have hlast := hs.current hx hstep.isOpen
  have hself := hb.call hx
  -- the other calls came before this one, and have come to their end
  have hcases {c' z} (h : s'.calls[c']? = some z) :
      (c' = c ∧ z = y) ∨ (c' < c ∧ s.calls[c']? = some z ∧ z.isOpen = false) := by
    refine (hb.calls_cases hx h).imp_right fun ⟨hc, h⟩ ↦ ?_
    have hlt' := lt_of_getElem? h
    refine ⟨by omega, h, Bool.eq_false_iff.mpr fun ho ↦ ?_⟩
    have := hs.current h ho
    omega
  have hn : s.pool.mailroom.Numbered fun id ↦ x.stage.number? = some id :=
    hs.numbered.mono fun id hid ↦ ⟨c, x, hx, hid⟩
  have hvisit := visited_mail hstep.visited
  have hyr := hstep.same.request
  rw [← hb.pool] at hvisit
  refine ⟨?_, Call.visited_plain hvisit (hs.request hx) hs.plain, fun {r} hr ↦ ?_, fun h ↦ ?_, fun h ↦ ?_,
    fun h ho ↦ ?_, fun {c' z L} hl ↦ ?_⟩
  · have hheld {id} (hid : s'.Holds id) : y.stage.number? = some id := by
      obtain ⟨c', z, hz, hid⟩ := hid
      obtain ⟨-, rfl⟩ | ⟨-, -, hclosed⟩ := hcases hz
      · exact hid
      · rw [Call.number?_of_closed hclosed] at hid
        cases hid
    cases hy : y.stage.number? with
    | none =>
      refine (visited_numbered hvisit hn).mono fun id hid ↦ ?_
      cases hy.symm.trans (hheld hid)
    | some id =>
      obtain ⟨rfl, rfl⟩ := Pool.giveNumber_ok (hstep.number?_eq hy)
      rw [hb.pool]
      exact hn.number fun id' hid ↦ .inr (Option.some.inj ((hheld hid).symm.trans hy))
  · have hmem : (r.timeout, r.accepting) ∈ s.terms := hb.terms ▸ mem_map_of_mem hr
    obtain ⟨r', hr', heq⟩ := mem_map.mp hmem
    exact (congrArg Prod.snd heq).symm.trans (hs.routers hr')
  · obtain ⟨-, rfl⟩ | ⟨-, h, -⟩ := hcases h
    · exact hyr ▸ hs.request hx
    · exact hs.request h
  · obtain ⟨-, rfl⟩ | ⟨-, h, -⟩ := hcases h
    · rw [hyr]
      exact hstep.fits (hs.request hx) (hs.fits hx)
    · exact hs.fits h
  · obtain ⟨rfl, -⟩ | ⟨-, -, hclosed⟩ := hcases h
    · rwa [hb.calls, length_set]
    · rw [hclosed] at ho
      cases ho
  · obtain ⟨rfl, rfl⟩ | ⟨hc, hz, hclosed⟩ := hcases hl.call
    · have hr : x.request = .initLinter L := hyr ▸ hl.request
      have hlast' : s.IsLast c' x L := by
        refine ⟨hx, hr, fun hlt' h ↦ ?_⟩
        have := lt_of_getElem? h
        omega
      rw [hb.pool]
      exact hstep.advances hfresh (fun _ ↦ hs.routers) hn hr (hs.fits hx) (hs.reached hlast')
    · have hlater : x.request.linter? = none := hyr ▸ hl.later hc hself
      have hlast' : s.IsLast c' z L := by
        refine ⟨hz, hl.request, fun {c'' z'} hlt' h ↦ ?_⟩
        by_cases hc' : c'' = c
        · subst hc'
          cases hx.symm.trans h
          exact hlater
        · refine hl.later hlt' ?_
          rwa [hb.calls, List.getElem?_set_ne (Ne.symm hc')]
      have hreached := hs.reached hlast'
      cases hst : z.stage with
      | finished outcome =>
        rw [hst] at hreached
        exact Call.visited_finished hvisit hfresh hlater hreached
      | abandoned => trivial
      | _ => simp [Call.isOpen, hst] at hclosed

variable {setup : SystemSetup σ}

theorem Steady.step (hs : s.Steady) (hfresh : ∀ w i, setup.fresh w i = none) {e : Event}
    (he : e.IsOrdinary) {s' : System σ} (h : s.step setup e = some s') : s'.Steady := by
  have haside {pool : Pool σ} (now : Nat) (hm : pool.mailroom = s.pool.mailroom) : { s with pool, now }.Steady :=
    hs.of_mail now (hm ▸ hs.numbered) (hm ▸ hs.plain) fun _ _ h ↦ hm ▸ h
  cases proceeds_of_step h with
  | work hq =>
    have hshift := Pool.workerStep_shift hq
    exact hs.of_mail s.now (hs.numbered.shift hshift) (hshift.plain hs.plain)
      fun _ _ hr ↦ hr.shift hs.numbered hs.plain hshift
  | monitor hq => exact haside s.now (Pool.mailroom_monitorStep hq)
  | replay hq => exact haside s.now (Pool.mailroom_replayStep hq)
  | drain hq => exact haside s.now (Pool.mailroom_drainStep hq)
  | call hx hstep hb => exact hs.call hfresh hx hstep hb
  | pass => exact haside _ rfl
  | _ => cases he

theorem Steady.run (hs : s.Steady) (hfresh : ∀ w i, setup.fresh w i = none) {s' : System σ}
    (h : Sequential setup s s') : s'.Steady := by
  induction h with
  | refl => exact hs
  | begin _ hover hx hr ih => exact ih.begin hover hx hr
  | step _ he hstep ih => exact ih.step hfresh he hstep

end System

end AnalysisServer
