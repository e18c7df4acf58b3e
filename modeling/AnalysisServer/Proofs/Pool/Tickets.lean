import AnalysisServer.Pool.Close
import AnalysisServer.Pool.Watch
import AnalysisServer.Pool.Work
import Mathlib.Data.List.Nodup

namespace AnalysisServer

open List

namespace Ticket

def countsFor (t : Ticket) (i generation : Nat) : Bool :=
  t.isPending && t.seat == i && t.generation == generation

variable {t : Ticket}

theorem countsFor_iff {i g : Nat} : t.countsFor i g ↔ t.isPending ∧ t.seat = i ∧ t.generation = g := by
  simp [countsFor, and_assoc]

variable {u : Ticket}

theorem countsFor_congr (hp : t.isPending = u.isPending) (hs : t.seat = u.seat)
    (hg : t.generation = u.generation) (i g : Nat) : t.countsFor i g = u.countsFor i g := by
  simp only [countsFor, hp, hs, hg]

theorem isPending_of_holder (h : t.holder = u.holder) : t.isPending = u.isPending := by
  simp only [isPending, h]

def isSettled (t : Ticket) : Bool :=
  t.complete || t.written.any fun r ↦ r matches .final _

/-- The change leaves it open to whom the ticket belongs, but not which ticket it is. -/
structure Same (t u : Ticket) : Prop where
  id : u.id = t.id
  seat : u.seat = t.seat
  generation : u.generation = t.generation

theorem Same.refl (t : Ticket) : t.Same t := ⟨rfl, rfl, rfl⟩

theorem Same.trans {v : Ticket} (h : t.Same u) (h' : u.Same v) : t.Same v :=
  ⟨h'.id.trans h.id, h'.seat.trans h.seat, h'.generation.trans h.generation⟩

end Ticket

theorem countP_replace {α : Type} {key : α → Nat} {l : List α} {a : α} (f : α → α)
    (P : α → Bool) (hl : (l.map key).Nodup) (ha : a ∈ l) :
    (l.map fun b ↦ if key b = key a then f b else b).countP P + (P a).toNat = l.countP P + (P (f a)).toNat := by
  induction l with
  | nil => cases ha
  | cons b l ih =>
    rw [map_cons, nodup_cons] at hl
    simp only [map_cons, countP_cons]
    obtain rfl | ha := mem_cons.mp ha
    · have hrest : (l.map fun b ↦ if key b = key a then f b else b) = l := by
        refine (map_congr_left fun b hb ↦ if_neg fun h ↦ hl.1 ?_).trans l.map_id
        exact mem_map.mpr ⟨b, hb, h⟩
      rw [if_pos rfl, hrest]
      cases P a <;> cases P (f a) <;> simp
    · have hne : key b ≠ key a := fun h ↦ hl.1 (h ▸ mem_map_of_mem ha)
      have := ih hl.2 ha
      rw [if_neg hne]
      omega

namespace Pool

variable {σ : Type} {p q : Pool σ} {id : RequestId} {f : Ticket → Ticket} {t : Ticket}

def ids (p : Pool σ) : List RequestId :=
  p.tickets.map Ticket.id

def pending (p : Pool σ) (i generation : Nat) : Nat :=
  p.tickets.countP (·.countsFor i generation)

def settled (p : Pool σ) : List RequestId :=
  (p.tickets.filter Ticket.isSettled).map Ticket.id

def InHand (p : Pool σ) (id : RequestId) (n : Nat) : Prop :=
  ∃ t ∈ p.tickets, t.id = id ∧ t.holder = .caller ∧ t.read = n

theorem mem_ids : id ∈ p.ids ↔ ∃ t ∈ p.tickets, t.id = id :=
  mem_map

theorem mem_settled_of_final {o : Except AnalysisError Response} (ht : t ∈ p.tickets)
    (h : t.next? = some (.final o)) : t.id ∈ p.settled := by
  refine mem_map.mpr ⟨t, mem_filter.mpr ⟨ht, ?_⟩, rfl⟩
  have hany : t.written.any (fun r ↦ r matches .final _) = true :=
    any_eq_true.mpr ⟨_, mem_of_getElem? h, rfl⟩
  simp [Ticket.isSettled, hany]

theorem mem_settled_of_complete (ht : t ∈ p.tickets) (h : t.complete) : t.id ∈ p.settled :=
  mem_map.mpr ⟨t, mem_filter.mpr ⟨ht, by simp [Ticket.isSettled, h]⟩, rfl⟩

theorem ticket?_eq_some (h : p.ticket? id = some t) : t ∈ p.tickets ∧ t.id = id :=
  ⟨mem_of_find?_eq_some h, by simpa using List.find?_some h⟩

theorem ticket_unique (hids : p.ids.Nodup) (ht : t ∈ p.tickets) (hu : u ∈ p.tickets) (h : t.id = u.id) : t = u :=
  inj_on_of_nodup_map hids ht hu h

section SetTicket

theorem mem_setTicket : u ∈ (p.setTicket id f).tickets ↔ ∃ t ∈ p.tickets, (if t.id = id then f t else t) = u :=
  mem_map

section

variable (hf : ∀ t : Ticket, t.Same (f t))

include hf

theorem same_setTicket (id : RequestId) (t : Ticket) : t.Same (if t.id = id then f t else t) := by
  split
  · exact hf t
  · exact .refl t

theorem ids_setTicket : (p.setTicket id f).ids = p.ids := by
  simp only [ids, setTicket, map_map]
  exact map_congr_left fun t _ ↦ (same_setTicket hf id t).id

theorem pending_setTicket (hp : ∀ t ∈ p.tickets, t.id = id → (f t).isPending = t.isPending) (i g : Nat) :
    (p.setTicket id f).pending i g = p.pending i g := by
  simp only [pending, setTicket, countP_map]
  refine countP_congr fun t ht ↦ ?_
  have hsame := same_setTicket hf id t
  rw [Function.comp_apply, Ticket.countsFor_congr ?_ hsame.seat hsame.generation]
  split
  · rename_i hid
    exact hp t ht hid
  · rfl

end

theorem pending_hold (hids : p.ids.Nodup) (ht : t ∈ p.tickets) (hp : t.isPending) (i g : Nat) : p.pending i g =
      (p.hold t.id .released).pending i g + (if t.seat = i ∧ t.generation = g then 1 else 0) := by
  have hcount := countP_replace (fun t ↦ { t with holder := .released }) (·.countsFor i g) hids ht
  have hout : ({ t with holder := .released } : Ticket).countsFor i g = false := by
    simp [Ticket.countsFor, Ticket.isPending]
  have hin : (t.countsFor i g).toNat = if t.seat = i ∧ t.generation = g then 1 else 0 := by
    by_cases hs : t.seat = i <;> by_cases hg : t.generation = g <;>
      simp [Ticket.countsFor, hp, hs, hg]
  rw [hout, hin] at hcount
  exact hcount.symm

end SetTicket

end Pool

end AnalysisServer
