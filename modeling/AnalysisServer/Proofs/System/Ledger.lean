import AnalysisServer.Proofs.Pool.Reach
import AnalysisServer.Proofs.Pool.Upkeep
import AnalysisServer.Proofs.System.Runs

namespace AnalysisServer

open List

variable {σ : Type} {id : RequestId} {freed : List RequestId} {i : Nat} {mine : List RequestId}

theorem Pool.Follows.mono {p q : Pool σ} {mine mine' freed : List RequestId}
    (h : p.Follows mine freed q) (hm : ∀ id ∈ mine, id ∈ mine') : p.Follows mine' freed q :=
  ⟨h.order, h.nextId_le, fun hid ↦ (h.ids hid).imp_right (.imp_left (hm _)),
    fun hid ↦ h.inHand fun hid' ↦ hid (hm _ hid'), h.counts, h.seats, h.seatCount⟩

theorem Pool.InHand.mem_ids {p : Pool σ} {n : Nat} (h : p.InHand id n) : id ∈ p.ids := by
  obtain ⟨t, ht, hid, -⟩ := h
  exact Pool.mem_ids.mpr ⟨t, ht, hid⟩

def Stage.isQuiet : Stage → Bool
  | .waiting _ | .finished _ | .abandoned => false
  | _ => true

namespace Call

def hand (x : Call) : List RequestId :=
  x.stage.number?.toList ++ x.tickets

theorem mem_hand {x : Call} : id ∈ x.hand ↔ x.stage.number? = some id ∨ id ∈ x.tickets := by
  simp [hand]

structure InOrder (p : Pool σ) (x : Call) : Prop where
  fresh {id : RequestId} : x.stage.number? = some id → id < p.nextId ∧ id ∉ p.ids
  held {id : RequestId} : id ∈ x.tickets → ∃ n, p.InHand id n
  waiting {id : RequestId} : x.stage = .waiting id → p.InHand id x.heard.length
  nodup : x.tickets.Nodup
  quiet : x.stage.isQuiet → x.heard = []

variable {p q : Pool σ} {x y : Call} {id : RequestId} {setup : PoolSetup σ}

namespace InOrder

theorem lt (h : x.InOrder p) (hp : p.InOrder) (hid : id ∈ x.hand) : id < p.nextId := by
  obtain hid | hid := mem_hand.mp hid
  · exact (h.fresh hid).1
  · obtain ⟨n, hn⟩ := h.held hid
    exact hp.ids_lt hn.mem_ids

theorem of_empty (hn : x.stage.number? = none) (ht : x.tickets = [])
    (hq : x.stage.isQuiet → x.heard = []) : x.InOrder p := by
  refine ⟨fun h ↦ ?_, fun h ↦ ?_, fun h ↦ ?_, ht ▸ nodup_nil, hq⟩
  · rw [hn] at h
    cases h
  · rw [ht] at h
    cases h
  · rw [tickets, h] at ht
    cases ht

theorem follows (h : x.InOrder p) (hf : p.Follows mine freed q) (hd : ∀ id ∈ x.hand, id ∉ mine) : x.InOrder q := by
  refine ⟨fun {id} hid ↦ ?_, fun {id} hid ↦ ?_, fun {id} hid ↦ ?_, h.nodup, h.quiet⟩
  · obtain ⟨hlt, hnot⟩ := h.fresh hid
    refine ⟨Nat.lt_of_lt_of_le hlt hf.nextId_le, fun hmem ↦ ?_⟩
    obtain hmem | hmem | hle := hf.ids hmem
    · exact hnot hmem
    · exact hd id (mem_hand.mpr (.inl hid)) hmem
    · exact Nat.not_lt.mpr hle hlt
  · obtain ⟨n, hn⟩ := h.held hid
    exact ⟨n, hf.inHand (hd id (mem_hand.mpr (.inr hid))) hn⟩
  · have hmem : id ∈ x.tickets := by simp [tickets, hid]
    exact hf.inHand (hd id (mem_hand.mpr (.inr hmem))) (h.waiting hid)

end InOrder

theorem filterMap_unsent (sent : List (Except AnalysisError RequestId)) (e : AnalysisError) :
    (sent ++ [Except.error e]).filterMap Except.toOption = sent.filterMap Except.toOption := by
  simp [Except.toOption]

theorem filterMap_sent (sent : List (Except AnalysisError RequestId)) (id : RequestId) :
    (sent ++ [Except.ok id]).filterMap Except.toOption = sent.filterMap Except.toOption ++ [id] := by
  simp [Except.toOption]

structure Fair (p : Pool σ) (x : Call) (q : Pool σ) (y : Call) : Prop where
  follows : p.Follows x.hand p.settled q
  order : y.InOrder q
  hand {id : RequestId} : id ∈ y.hand → id ∈ x.hand ∨ p.nextId ≤ id

namespace Fair

theorem of_empty (hf : p.Follows x.hand p.settled q) (hn : y.stage.number? = none)
    (ht : y.tickets = []) (hq : y.stage.isQuiet → y.heard = []) : Fair p x q y := by
  refine ⟨hf, .of_empty hn ht hq, fun hid ↦ ?_⟩
  rw [Call.hand, hn, ht] at hid
  cases hid

section

variable (hp : p.InOrder) (hx : x.InOrder p)

include hp hx

theorem of_same (hn : y.stage.number? = none) (ht : y.tickets = x.tickets) (hw : ∀ id, y.stage ≠ .waiting id)
    (hq : y.heard = []) : Fair p x p y := by
  refine ⟨.refl hp, ⟨fun h ↦ ?_, fun h ↦ hx.held (ht ▸ h), fun h ↦ (hw _ h).elim, ht ▸ hx.nodup,
    fun _ ↦ hq⟩, fun h ↦ ?_⟩
  · rw [hn] at h
    cases h
  · obtain h | h := mem_hand.mp h
    · rw [hn] at h
      cases h
    · exact .inl (mem_hand.mpr (.inr (ht ▸ h)))

theorem number (hq : p.giveNumber = (.ok id, q))
    (hy : y.stage.number? = some id) (ht : y.tickets = x.tickets) (hquiet : y.heard = []) :
    Fair p x q y := by
  obtain ⟨hf, rfl, hnext, hids⟩ : p.Follows [] p.settled q ∧ _ := Pool.Follows.giveNumber hp hq
  refine ⟨hf.mono nofun, ⟨fun h ↦ ?_, fun h ↦ ?_, fun h ↦ ?_, ht ▸ hx.nodup, fun _ ↦ hquiet⟩, fun h ↦ ?_⟩
  · cases hy.symm.trans h
    rw [hnext, hids]
    exact ⟨Nat.lt_succ_self _, fun hmem ↦ Nat.lt_irrefl _ (hp.ids_lt hmem)⟩
  · obtain ⟨n, hn⟩ := hx.held (ht ▸ h)
    exact ⟨n, hf.inHand not_mem_nil hn⟩
  · rw [h] at hy
    cases hy
  · obtain h | h := mem_hand.mp h
    · exact .inr (Nat.le_of_eq (Option.some.inj (hy.symm.trans h)))
    · exact .inl (mem_hand.mpr (.inr (ht ▸ h)))

theorem enqueue {streaming : Bool} {result : Except AnalysisError Unit} (hid : x.stage.number? = some id)
    (hq : p.enqueue setup i id x.request streaming = (result, q)) (hy : y.stage.number? = none)
    (ht : y.tickets = x.tickets ∨ y.tickets = x.tickets ++ [id] ∧ result = .ok ())
    (hw : ∀ id', y.stage = .waiting id' → id' = id ∧ result = .ok () ∧ y.heard = [])
    (hquiet : y.stage.isQuiet → y.heard = []) : Fair p x q y := by
  obtain ⟨hlt, hnew⟩ := hx.fresh hid
  have hmine : id ∈ [id] := mem_singleton_self id
  have hp' : p.Follows [id] p.settled p := .refl hp
  obtain ⟨hf, hhand⟩ := hp'.enqueue setup hmine hlt hnew hq
  have hother {id'} (h : id' ∈ x.tickets) : id' ∉ [id] := by
    obtain ⟨n, hn⟩ := hx.held h
    rintro h
    exact hnew (mem_singleton.mp h ▸ hn.mem_ids)
  have htickets {id'} (h : id' ∈ y.tickets) : id' ∈ x.tickets ∨ id' = id ∧ result = .ok () := by
    obtain ht | ⟨ht, hok⟩ := ht
    · exact .inl (ht ▸ h)
    · rw [ht, mem_append, mem_singleton] at h
      exact h.imp_right fun h ↦ ⟨h, hok⟩
  refine ⟨hf.mono fun id' h ↦ ?_, ⟨fun h ↦ ?_, fun {id'} h ↦ ?_, fun {id'} h ↦ ?_, ?_, hquiet⟩, fun {id'} h ↦ ?_⟩
  · rw [mem_singleton.mp h]
    exact mem_hand.mpr (.inl hid)
  · rw [hy] at h
    cases h
  · obtain hold | ⟨rfl, hok⟩ := htickets h
    · obtain ⟨n, hn⟩ := hx.held hold
      exact ⟨n, hf.inHand (hother hold) hn⟩
    · exact ⟨0, hhand hok⟩
  · obtain ⟨rfl, hok, hnone⟩ := hw id' h
    rw [hnone]
    exact hhand hok
  · obtain ht | ⟨ht, -⟩ := ht
    · exact ht ▸ hx.nodup
    · rw [ht]
      refine nodup_append.mpr ⟨hx.nodup, nodup_singleton _, fun a ha b hb hab ↦ ?_⟩
      exact hother ha (hab ▸ hb)
  · obtain h | h := mem_hand.mp h
    · rw [hy] at h
      cases h
    · obtain hold | ⟨rfl, -⟩ := htickets h
      · exact .inl (mem_hand.mpr (.inr hold))
      · exact .inl (mem_hand.mpr (.inl hid))

theorem hear (hid : id ∈ x.tickets) {heard : Pool.Heard}
    (hq : p.hear id = some (heard, q)) (hy : y.stage.number? = none)
    (ht : y.tickets.Sublist x.tickets) (hpart : id ∈ y.tickets → ∃ part, heard = .part part)
    (hw : ∀ id', y.stage = .waiting id' → x.stage = .waiting id' ∧ id' = id ∧
      y.heard.length = x.heard.length + 1 ∧ ∃ part, heard = .part part)
    (hquiet : y.stage.isQuiet → y.heard = []) : Fair p x q y := by
  have hmine : id ∈ [id] := mem_singleton_self id
  obtain ⟨n, hn⟩ := hx.held hid
  obtain ⟨hf, hread⟩ := Pool.Follows.hear hp hn hmine hq
  refine ⟨hf.mono fun id' h ↦ ?_, ⟨fun h ↦ ?_, fun {id'} h ↦ ?_, fun {id'} h ↦ ?_, hx.nodup.sublist ht,
    hquiet⟩, fun {id'} h ↦ ?_⟩
  · rw [mem_singleton.mp h]
    exact mem_hand.mpr (.inr hid)
  · rw [hy] at h
    cases h
  · by_cases heq : id' = id
    · subst heq
      obtain ⟨part, hpart⟩ := hpart h
      exact ⟨n + 1, hread part hpart⟩
    · obtain ⟨m, hm⟩ := hx.held (ht.subset h)
      exact ⟨m, hf.inHand (fun hmem ↦ heq (mem_singleton.mp hmem)) hm⟩
  · obtain ⟨hwait, rfl, hlen, part, hpart⟩ := hw id' h
    rw [hlen]
    exact (Pool.Follows.hear hp (hx.waiting hwait) hmine hq).2 part hpart
  · obtain h | h := mem_hand.mp h
    · rw [hy] at h
      cases h
    · exact .inl (mem_hand.mpr (.inr (ht.subset h)))

end

theorem giveUp (hf : p.Follows x.hand p.settled q) {stage : Stage}
    (h : stage = .abandoned ∨ ∃ o, stage = .finished o) {ids : List RequestId}
    (hids : ∀ id ∈ ids, id ∈ x.tickets) : Fair p x (ids.foldl Pool.detach q) (x.ended stage) := by
  have hfall : p.Follows x.hand p.settled (ids.foldl Pool.detach q) :=
    hf.detachAll fun id hid ↦ mem_hand.mpr (.inr (hids id hid))
  obtain rfl | ⟨o, rfl⟩ := h
  · exact .of_empty hfall rfl rfl nofun
  · exact .of_empty hfall rfl rfl nofun

end Fair

theorem Step.fair [Digest] {s : System σ} (h : x.Step setup s q y)
    (hp : s.pool.InOrder) (hx : x.InOrder s.pool) : Fair s.pool x q y := by
  have hquiet (h : x.stage.isQuiet) : x.heard = [] := hx.quiet h
  cases h with
  | accept h hd => exact .of_empty (.refl hp) rfl rfl fun _ ↦ hquiet (by rw [h]; rfl)
  | turnAway h hr ha | gathered h => exact .of_empty (.refl hp) rfl rfl (by rintro ⟨⟩)
  | remember h hr => exact .of_empty (.remember hp _) rfl rfl fun _ ↦ hquiet (by rw [h]; rfl)
  | choose h hr => exact .of_empty (.choose hp setup _) rfl rfl fun _ ↦ hquiet (by rw [h]; rfl)
  | number h hq | spreadNumber h hs hq =>
    exact .number hp hx hq rfl (by simp [tickets, h]) (hquiet (by rw [h]; rfl))
  | numberRefused h hq =>
    rw [Pool.giveNumber_error hq]
    exact .of_empty (.refl hp) rfl rfl (by rintro ⟨⟩)
  | send h hq =>
    have hnone := hquiet (by rw [h]; rfl)
    refine .enqueue hp hx (by rw [h]; rfl) hq rfl (.inr ⟨by simp [tickets, h], rfl⟩) ?_ fun _ ↦ hnone
    intro id' hst
    cases hst
    exact ⟨rfl, rfl, hnone⟩
  | sendRefused h hq =>
    exact .enqueue hp hx (by rw [h]; rfl) hq rfl (.inl (by simp [tickets, h, Call.ended])) (by simp [Call.ended])
      (by rintro ⟨⟩)
  | hearPart h hq =>
    refine .hear hp hx (by simp [tickets, h]) hq (by simp [h, Stage.number?]) (.refl _)
      (fun _ ↦ ⟨_, rfl⟩) (fun id' hst ↦ ?_) fun hst ↦ ?_
    · cases h.symm.trans hst
      exact ⟨h, rfl, length_append, _, rfl⟩
    · rw [h] at hst
      cases hst
  | @hear id outcome q h hq =>
    have hid : id ∈ x.tickets := by simp [tickets, h]
    have hf := (Pool.Follows.hear hp (hx.waiting h) (mem_hand.mpr (.inr hid)) hq).1
    have hall : ∀ id' ∈ [id], id' ∈ x.tickets := by simpa using hid
    exact .giveUp hf (.inr ⟨outcome, rfl⟩) hall
  | spreadClosed h hs hq =>
    rw [Pool.giveNumber_error hq]
    refine .of_same hp hx rfl ?_ (by simp) (hquiet (by rw [h]; rfl))
    simp only [tickets, h, filterMap_unsent]
  | spreadSend h hs hq =>
    refine .enqueue hp hx (by rw [h]; rfl) hq rfl (.inr ⟨?_, rfl⟩) (by simp) fun _ ↦ hquiet (by rw [h]; rfl)
    simp only [tickets, h, filterMap_sent]
  | spreadRefused h hs hq =>
    refine .enqueue hp hx (by rw [h]; rfl) hq rfl (.inl ?_) (by simp) fun _ ↦ hquiet (by rw [h]; rfl)
    simp only [tickets, h, filterMap_unsent]
  | gather h hs => exact .of_same hp hx rfl (by simp [tickets, h]) (by simp) (hquiet (by rw [h]; rfl))
  | gatherUnsent h =>
    refine .of_same hp hx rfl ?_ (by simp) (hquiet (by rw [h]; rfl))
    simp only [tickets, h]
    rfl
  | gatherPart h hq =>
    refine .hear hp hx (by simp [tickets, h, Except.toOption]) hq (by simp [h, Stage.number?]) (.refl _)
      (fun _ ↦ ⟨_, rfl⟩) (fun id' hst ↦ ?_) fun hst ↦ hquiet hst
    rw [h] at hst
    cases hst
  | @gatherHear id rest failure outcome q h hq =>
    have htickets : x.tickets = id :: rest.filterMap Except.toOption := by
      simp [tickets, h, Except.toOption]
    refine .hear hp hx (by simp [htickets]) hq rfl ?_ (fun hmem ↦ ?_) (by simp) fun _ ↦ hquiet (by rw [h]; rfl)
    · rw [htickets]
      exact sublist_cons_self _ _
    · have hnodup := hx.nodup
      rw [htickets, nodup_cons] at hnodup
      exact (hnodup.1 hmem).elim

end Call

namespace System

structure InOrder (s : System σ) : Prop where
  pool : s.pool.InOrder
  call {c : Nat} {x : Call} : s.calls[c]? = some x → x.InOrder s.pool
  apart {c c' : Nat} {x x' : Call} {id : RequestId} : s.calls[c]? = some x → s.calls[c']? = some x' →
    id ∈ x.hand → id ∈ x'.hand → c = c'
  started {i : Nat} {seat : Seat} : s.pool.seats[i]? = some seat → 0 < seat.generation

variable {s s' : System σ} {q : Pool σ}

theorem InOrder.opened (setup : SystemSetup σ) (count : Nat) (disk : Disk) (timeouts : List Nat) :
    (opened setup count disk timeouts).InOrder :=
  ⟨Pool.InOrder.start _ _ _, nofun, nofun, Pool.generation_start _⟩

theorem InOrder.started_of_follows (hs : s.InOrder)
    (hf : s.pool.Follows mine freed q) {seat : Seat} (hi : q.seats[i]? = some seat) :
    0 < seat.generation := by
  obtain ⟨seat₀, hi₀, hle⟩ := hf.seats hi
  exact Nat.lt_of_lt_of_le (hs.started hi₀) hle

theorem InOrder.background (hs : s.InOrder) (hcalls : s'.calls = s.calls)
    (hf : s.pool.Follows [] freed s'.pool) : s'.InOrder := by
  refine ⟨hf.order, fun hx ↦ ?_, fun hx hx' ↦ hs.apart (hcalls ▸ hx) (hcalls ▸ hx'), hs.started_of_follows hf⟩
  exact (hs.call (hcalls ▸ hx)).follows hf fun _ _ ↦ not_mem_nil

theorem InOrder.becomes (hs : s.InOrder) {c : Nat} {x y : Call} (hx : s.calls[c]? = some x)
    (hb : s.Becomes s' c q y) (hfair : Call.Fair s.pool x q y) : s'.InOrder := by
  have hforeign {c' z id} (hc : c' ≠ c) (hz : s.calls[c']? = some z)
      (hid : id ∈ z.hand) : id ∉ x.hand := fun h ↦ hc (hs.apart hz hx hid h)
  have hclash {c' z id} (hc : c' ≠ c) (hz : s.calls[c']? = some z)
      (hid : id ∈ z.hand) (hid' : id ∈ y.hand) : False := by
    obtain h | hle := hfair.hand hid'
    · exact hforeign hc hz hid h
    · exact Nat.not_lt.mpr hle ((hs.call hz).lt hs.pool hid)
  have hpool := hb.pool
  refine ⟨hpool ▸ hfair.follows.order, fun hz ↦ ?_, fun hz hz' hid hid' ↦ ?_,
    fun hi ↦ hs.started_of_follows hfair.follows (hpool ▸ hi)⟩
  · rw [hpool]
    obtain ⟨-, rfl⟩ | ⟨hc, hz⟩ := hb.calls_cases hx hz
    · exact hfair.order
    · exact (hs.call hz).follows hfair.follows fun id hid ↦ hforeign hc hz hid
  · obtain ⟨rfl, rfl⟩ | ⟨hc, hz⟩ := hb.calls_cases hx hz <;>
      obtain ⟨rfl, rfl⟩ | ⟨hc', hz'⟩ := hb.calls_cases hx hz'
    · rfl
    · exact (hclash hc' hz' hid' hid).elim
    · exact (hclash hc hz hid hid').elim
    · exact hs.apart hz hz' hid hid'

theorem InOrder.begin (hs : s.InOrder) (request : Request) (streaming : Bool) (router : Option Nat) :
    (s.begin { request, streaming, router }).2.InOrder := by
  refine ⟨hs.pool, fun hz ↦ ?_, fun hz hz' hid hid' ↦ ?_, hs.started⟩
  · obtain hz | ⟨-, rfl⟩ := getElem?_concat_cases hz
    · exact hs.call hz
    · exact .of_empty rfl rfl fun _ ↦ rfl
  · obtain hz | ⟨-, rfl⟩ := getElem?_concat_cases hz
    · obtain hz' | ⟨-, rfl⟩ := getElem?_concat_cases hz'
      · exact hs.apart hz hz' hid hid'
      · cases hid'
    · cases hid

variable [Digest] {setup : SystemSetup σ}

theorem InOrder.step (hs : s.InOrder) {e : Event} (h : s.step setup e = some s') :
    s'.InOrder ∧ ∃ mine, s.pool.Follows mine s.pool.settled s'.pool := by
  have hback (hcalls : s'.calls = s.calls) (hf : s.pool.Follows [] s.pool.settled s'.pool) :
      s'.InOrder ∧ ∃ mine, s.pool.Follows mine s.pool.settled s'.pool :=
    ⟨hs.background hcalls hf, [], hf⟩
  have hbecomes {c x y q} (hx : s.calls[c]? = some x) (hb : s.Becomes s' c q y) (hfair : Call.Fair s.pool x q y) :
      s'.InOrder ∧ ∃ mine, s.pool.Follows mine s.pool.settled s'.pool :=
    ⟨hs.becomes hx hb hfair, x.hand, hb.pool ▸ hfair.follows⟩
  cases proceeds_of_step h with
  | work hq => exact hback rfl (.workerStep hs.pool hq)
  | monitor hq => exact hback rfl (.monitorStep hs.pool hq)
  | replay hq => exact hback rfl (.replayStep hs.pool hq)
  | drain hq => exact hback rfl (.drainStep hs.pool hq)
  | call hx hstep hb => exact hbecomes hx hb (hstep.fair hs.pool (hs.call hx))
  | timeUp hx _ _ hb => exact hbecomes hx hb (.giveUp (.refl hs.pool) (.inr ⟨_, rfl⟩) fun _ h ↦ h)
  | abandon hx _ hb => exact hbecomes hx hb (.giveUp (.refl hs.pool) (.inl rfl) fun _ h ↦ h)
  | beginClose hq => exact hback rfl (.beginClose hs.pool hq)
  | close hq => exact hback rfl (.closeStep hs.pool hq)
  | graceOver hq => exact hback rfl (.graceOver hs.pool hq)
  | shutdown hcalls hpool | drainOver hcalls hpool => exact hback hcalls (by rw [hpool]; exact .refl hs.pool)
  | shutdownClose hcalls hq => exact hback hcalls (.beginClose hs.pool hq)
  | pass => exact hback rfl (.refl hs.pool)

theorem InOrder.run (hs : s.InOrder) (h : Run setup s s') : s'.InOrder := by
  induction h with
  | refl => exact hs
  | call _ request streaming router ih => exact ih.begin request streaming router
  | shutdown _ router grace ih => exact ⟨ih.pool, ih.call, ih.apart, ih.started⟩
  | step _ hstep ih => exact (ih.step hstep).1

end System

end AnalysisServer
