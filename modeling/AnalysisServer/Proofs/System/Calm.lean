import AnalysisServer.Proofs.System.Settling

/-!
Calm runs: calls are made at any time and go on in any order, but nothing is shut down and nobody gives up.
-/

namespace AnalysisServer

open List

def Call.isStoring (x : Call) : Bool :=
  x.request.linter?.isSome && (x.stage matches .accepted)

namespace System

variable {σ : Type} {setup : SystemSetup σ} {s t u : System σ} {journal journal' : List Happening}
  {stored stored' : List Nat} {count : Nat} {disk : Disk} {timeouts : List Nat} {e : Event}

def storing (s : System σ) : Event → List Nat
  | .call c =>
    match s.calls[c]? with
    | some x => if x.isStoring then [c] else []
    | none => []
  | _ => []

def AllWell (s : System σ) : Prop :=
  ∀ x ∈ s.calls, ∃ response, x.outcome? = some (.ok response)

variable [Digest]

/-- What may come of a system in the ordinary course of things, with the journal of it and with the calls
that have had their linters kept, one after the other. -/
inductive Calm (setup : SystemSetup σ) (s : System σ) : List Happening → List Nat → System σ → Prop
  | refl : Calm setup s [] [] s
  | call {journal : List Happening} {stored : List Nat} {t : System σ} (h : Calm setup s journal stored t)
      (request : Request) (streaming : Bool) (router : Option Nat) :
      Calm setup s journal stored (t.begin { request, streaming, router }).2
  | step {journal : List Happening} {stored : List Nat} {t u : System σ} {e : Event}
      (h : Calm setup s journal stored t) (he : e.IsOrdinary) (hstep : t.step setup e = some u) :
      Calm setup s (journal ++ t.happenings setup e u) (stored ++ t.storing e) u

/-- Goes through events told one by one, as long as each of them can happen, and keeps the books. -/
def chronicle (setup : SystemSetup σ) : List Event → List Happening × List Nat × System σ →
    Option (List Happening × List Nat × System σ)
  | [], r => some r
  | e :: es, (journal, stored, s) =>
    (s.step setup e).bind fun t ↦ chronicle setup es (journal ++ s.happenings setup e t, stored ++ s.storing e, t)

omit [Digest] in
theorem calls_length_begin (s : System σ) (x : Call) : (s.begin x).2.calls.length = s.calls.length + 1 :=
  length_append

theorem calls_length_step (h : s.step setup e = some t) : t.calls.length = s.calls.length := by
  obtain hcalls | ⟨c, x, y, -, -, -, hcalls⟩ := calls_of_step h
  · rw [hcalls]
  · rw [hcalls, length_set]

namespace Calm

section

variable (h : Calm setup s journal stored t)

include h

theorem chronicle {es : List Event} (hes : ∀ e ∈ es, e.IsOrdinary)
    (hr : chronicle setup es (journal, stored, t) = some (journal', stored', u)) :
    Calm setup s journal' stored' u ∧ u.calls.length = t.calls.length := by
  induction es generalizing journal stored t with
  | nil =>
    cases hr
    exact ⟨h, rfl⟩
  | cons e es ih =>
    obtain ⟨v, hv, hr⟩ := Option.bind_eq_some_iff.mp hr
    obtain ⟨hcalm, hlen⟩ := ih (h.step (hes e (.head _)) hv) (fun e' he ↦ hes e' (.tail _ he)) hr
    exact ⟨hcalm, hlen.trans (calls_length_step hv)⟩

theorem trans (h' : Calm setup t journal' stored' u) : Calm setup s (journal ++ journal') (stored ++ stored') u := by
  induction h' with
  | refl => simpa using h
  | call _ request streaming router ih => exact ih.call request streaming router
  | step _ he hstep ih => simpa using ih.step he hstep

theorem history : History setup s journal t := by
  induction h with
  | refl => exact .refl
  | call _ request streaming router ih => exact ih.call request streaming router
  | step _ _ hstep ih => exact ih.step hstep

theorem run : Run setup s t := by
  induction h with
  | refl => exact .refl
  | call _ request streaming router ih => exact ih.call request streaming router
  | step _ _ hstep ih => exact ih.step hstep

theorem calls_le : s.calls.length ≤ t.calls.length := by
  induction h with
  | refl => exact Nat.le_refl _
  | call _ request streaming router ih =>
    rw [calls_length_begin]
    exact Nat.le_succ_of_le ih
  | step _ _ hstep ih =>
    rwa [calls_length_step hstep]

end

section

variable (h : Calm setup (opened setup count disk timeouts) journal stored s)

include h

theorem faithful : s.Faithful setup (max count 1) timeouts journal :=
  (Faithful.opened setup count disk timeouts).history h.history

theorem settling : s.Spoiled journal ∨ s.Settling setup (max count 1) journal := by
  induction h with
  | refl => exact .inr (.opened setup count disk timeouts)
  | call h request streaming router ih => exact Settling.begin ih h.faithful _
  | step h he hstep ih => exact Settling.step ih h.faithful he hstep

theorem settling_of_well (hok : s.AllWell) : s.Settling setup (max count 1) journal := by
  obtain (⟨c, seat, id, hsent, hu⟩ | ⟨c, x, hx, hfailed⟩) | hs := h.settling
  · have hx := List.getElem?_eq_getElem (h.faithful.sent hsent)
    obtain ⟨response, ho⟩ := hok _ (mem_of_getElem? hx)
    exact (hu.failed response ((h.faithful.call hx).answered ho hsent)).elim
  · obtain ⟨response, ho⟩ := hok x (mem_of_getElem? hx)
    unfold Call.outcome? at ho
    unfold Call.Failed at hfailed
    split at ho <;> simp_all
  · exact hs

theorem settled (hok : s.AllWell) {w : WorkerId} {x : Worker σ} (hx : s.pool.workers[w]? = some x) :
    x.inbox = [] ∧ x.work = none ∧
      x.session.linter = (s.queued journal w).foldl Request.linterAfter (setup.fresh w w) := by
  have hs := h.settling_of_well hok
  have hd := Pool.desks_of_workers hx
  -- a request at a desk was sent by a call, and this call would not have ended well
  have hpending : x.desk.pending = [] := by
    refine eq_nil_iff_forall_not_mem.mpr fun id hid ↦ ?_
    obtain ⟨c, seat, hsent⟩ := hs.pending hd hid
    obtain ⟨r, b, hr⟩ := h.faithful.record hsent
    have hz := List.getElem?_eq_getElem (h.faithful.sent hsent)
    obtain ⟨response, ho⟩ := hok _ (mem_of_getElem? hz)
    exact h.faithful.mail.unended hd hid hr _ ((h.faithful.call hz).answered ho hsent)
  obtain ⟨hwork, hwaiting⟩ := append_eq_nil_iff.mp hpending
  have hclose := (hs.staffed.worker (mem_of_getElem? hx)).inbox
  refine ⟨eq_nil_iff_forall_not_mem.mpr fun message hmem ↦ ?_, by simpa [Worker.desk] using hwork, ?_⟩
  · cases message with
    | close => exact hclose hmem
    | analyze id request streaming =>
      have hid : id ∈ x.desk.waiting := mem_filterMap.mpr ⟨_, hmem, rfl⟩
      rw [hwaiting] at hid
      cases hid
  · rw [← hs.destined hd, Desk.destined_of_waiting hwaiting]
    rfl

theorem workers_length (hok : s.AllWell) : s.pool.workers.length = max count 1 :=
  (h.settling_of_well hok).staffed.count.trans h.faithful.seats

end

end Calm

end System

end AnalysisServer
