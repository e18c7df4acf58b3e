import AnalysisServer.Pool.Close
import AnalysisServer.Pool.Watch
import AnalysisServer.Proofs.Pool.Acts
import AnalysisServer.Proofs.Pool.Deliveries

namespace AnalysisServer.Pool

variable {σ : Type} {p q r : Pool σ} {o : Option (Nat × Nat)} {i g : Nat} {t : Ticket} {s : Seat}

/-- No seat has changed but the given one, and this only if it was in the given generation. -/
def Reaches (p q : Pool σ) (o : Option (Nat × Nat)) : Prop :=
  ∀ ⦃i : Nat⦄ ⦃s : Seat⦄, p.seats[i]? = some s → o ≠ some (i, s.generation) → q.seats[i]? = some s

namespace Reaches

theorem of_seats (h : q.seats = p.seats) : p.Reaches q o :=
  fun _ _ hs _ ↦ h ▸ hs

theorem congr (h : p.Reaches q o) (hs : r.seats = q.seats) : p.Reaches r o :=
  fun _ _ hi ho ↦ hs ▸ h hi ho

theorem update (h : p.Reaches q (some (i, g))) (f : Seat → Seat) : p.Reaches (q.update i g f) (some (i, g)) := by
  intro j s hs ho
  simp only [Pool.update, setSeat, List.getElem?_modify, h hs ho, Option.map_eq_map, Option.map_some,
    Option.some.injEq]
  split
  · rename_i hij
    refine if_neg fun hg ↦ ho ?_
    rw [hij, hg]
  · rfl

theorem release (h : p.Reaches q (some (t.seat, t.generation))) :
    p.Reaches (q.release t) (some (t.seat, t.generation)) :=
  (h.congr (r := q.hold t.id .released) rfl).update Seat.release

theorem of_others (hi : p.seats[i]? = some s) (h : ∀ j, j ≠ i → q.seats[j]? = p.seats[j]?) :
    p.Reaches q (some (i, s.generation)) := by
  intro j s' hs' ho
  refine (h j fun hij ↦ ho ?_).trans hs'
  subst hij
  cases hi.symm.trans hs'
  rfl

end Reaches

theorem seats_detachAll (ids : List RequestId) (p : Pool σ) : (ids.foldl detach p).seats = p.seats :=
  foldl_same seats (fun _ _ ↦ by rfl) ids p

section Steps

variable {w : WorkerId} {x : Worker σ} {id : RequestId} {engine : RuleEngine σ}

theorem seats_workerStep [Digest] (h : p.workerStep engine w = some q) : q.seats = p.seats := by
  obtain ⟨_, _, _, _, _, _, _, _, rfl⟩ := worked_of_workerStep h
  rfl

theorem Reaches.monitorStep (hx : p.workers[w]? = some x) (h : p.monitorStep w = some q) :
    p.Reaches q (some (x.seat, x.generation)) := by
  have hp : p.Reaches p (some (x.seat, x.generation)) := .of_seats rfl
  simp only [Pool.monitorStep, hx, Option.bind_eq_bind, Option.bind_some] at h
  split at h
  · cases h
  · split at h
    · cases h
    · cases h
      split
      · exact hp.congr rfl
      · exact (hp.update Seat.crashed).congr rfl
  · rename_i rest _ _
    have hread : p.Reaches (p.setWorker w fun x ↦ { x with notes := rest }) (some (x.seat, x.generation)) :=
      hp.congr rfl
    split at h
    · split at h <;> cases h
      · exact hread.update Seat.online
      · exact (hread.update Seat.exited).congr rfl
    · cases h
      exact hp.congr rfl

theorem Reaches.replayStep (hx : p.workers[w]? = some x) (h : p.replayStep w = some q) :
    p.Reaches q (some (x.seat, x.generation)) := by
  have hp : p.Reaches p (some (x.seat, x.generation)) := .of_seats rfl
  simp only [Pool.replayStep, hx, Option.bind_eq_bind, Option.bind_some, Option.bind_eq_some_iff] at h
  obtain ⟨id, -, t, -, h⟩ := h
  have hforget : p.Reaches ((p.markRead id).forgetReplay w id) (some (x.seat, x.generation)) :=
    hp.congr rfl
  split at h
  · cases h
    exact hp.congr rfl
  · cases h
    exact hforget
  · cases h
    exact hforget.update Seat.fail
  · split at h <;> cases h
    exact hp.congr rfl

theorem Reaches.drainStep (ht : p.ticket? id = some t) (h : p.drainStep id = some q) :
    p.Reaches q (some (t.seat, t.generation)) := by
  have hp : p.Reaches p (some (t.seat, t.generation)) := .of_seats rfl
  have hread : p.Reaches (p.markRead id) (some (t.seat, t.generation)) := hp.congr rfl
  simp only [Pool.drainStep, ht, Option.bind_eq_bind, Option.bind_some] at h
  split at h
  · split at h
    · cases h
      exact hread
    · cases h
      exact hread.release
    · split at h <;> cases h
      exact hp.release
  · cases h

theorem Reaches.hear {t : Ticket} {heard : Heard} (ht : p.ticket? id = some t)
    (h : p.hear id = some (heard, q)) : p.Reaches q (some (t.seat, t.generation)) := by
  have hp : p.Reaches p (some (t.seat, t.generation)) := .of_seats rfl
  have hread : p.Reaches (p.markRead id) (some (t.seat, t.generation)) := hp.congr rfl
  simp only [Pool.hear, ht, Option.bind_eq_bind, Option.bind_some] at h
  split at h
  · cases h
    exact hread
  · cases h
    exact hread.release
  · split at h <;> cases h
    exact (hp.update Seat.fail).release

end Steps

section Send

variable (setup : PoolSetup σ) {id : RequestId} {m : Message} {j : Nat}

theorem seats_startWorker (hj : j ≠ i) : (p.startWorker setup i).seats[j]? = p.seats[j]? := by
  unfold startWorker
  split
  · rfl
  · rename_i s _
    show ((p.disconnect s).seats.set i _)[j]? = _
    rw [seats_disconnect, List.getElem?_set_ne (Ne.symm hj)]

theorem generation_startWorker (h : (p.startWorker setup i).seats[i]? = some s) : 0 < s.generation := by
  unfold startWorker at h
  split at h
  · rename_i hi
    rw [hi] at h
    cases h
  · rename_i s₀ hi
    replace h : ((p.disconnect s₀).seats.set i _)[i]? = some s := h
    have hlt := lt_of_getElem? hi
    rw [seats_disconnect, List.getElem?_set_self hlt] at h
    cases h
    exact Nat.succ_pos _

theorem generation_start {count : Nat} {disk : Disk}
    (h : (start setup count disk).seats[i]? = some s) : 0 < s.generation := by
  have hfold (is : List Nat) (p : Pool σ)
      (hp : ∀ (j : Nat) (s : Seat), j ∉ is → p.seats[j]? = some s → 0 < s.generation) :
      ∀ (j : Nat) (s : Seat), (is.foldl (startWorker setup) p).seats[j]? = some s → 0 < s.generation := by
    induction is generalizing p with
    | nil => exact fun j s hj ↦ hp j s List.not_mem_nil hj
    | cons i is ih =>
      refine ih _ fun j s hj hs ↦ ?_
      by_cases hij : j = i
      · subst hij
        exact generation_startWorker setup hs
      · rw [seats_startWorker setup hij] at hs
        exact hp j s (by simp [hij, hj]) hs
  refine hfold _ _ (fun j s hj hs ↦ absurd ?_ hj) i s h
  have hlt := lt_of_getElem? hs
  rw [List.length_replicate] at hlt
  exact List.mem_range.mpr hlt

theorem seats_enqueue {request : Request} {streaming : Bool} {result : Except AnalysisError Unit}
    (h : p.enqueue setup i id request streaming = (result, q)) (hj : j ≠ i) : q.seats[j]? = p.seats[j]? := by
  cases enqueued h with
  | nowhere => rfl
  | given => exact List.getElem?_set_ne (Ne.symm hj)
  | started => exact (List.getElem?_set_ne (Ne.symm hj)).trans (seats_startWorker setup hj)

end Send

section Close

theorem seats_beginClose (h : p.beginClose = some q) : q.seats = p.seats := by
  unfold beginClose at h
  split at h <;> cases h
  rfl

def nextToClose (p : Pool σ) : Option (Nat × Nat) :=
  match p.closing with
  | .asking next _ => p.seats[next]?.map fun s ↦ (next, s.generation)
  | _ => none

variable {now : Nat}

theorem Reaches.closeStep (h : p.closeStep now = some q) : p.Reaches q p.nextToClose := by
  have hasked {next : Nat} {asked : List Leaver} {s : Seat} {q : Pool σ} (hc : p.closing = .asking next asked)
      (hi : p.seats[next]? = some s) (hq : ∀ j, j ≠ next → q.seats[j]? = p.seats[j]?) :
      p.Reaches q p.nextToClose := by
    have hnext : p.nextToClose = some (next, s.generation) := by simp [nextToClose, hc, hi]
    exact hnext ▸ .of_others hi hq
  cases closes_of_closeStep h with
  | ask hc hi | askVain hc hi => exact hasked hc hi fun j hj ↦ List.getElem?_set_ne (Ne.symm hj)
  | skip | await | ended | finish => exact .of_seats rfl

def nextToGoOver (p : Pool σ) : Option (Nat × Nat) :=
  match p.closing with
  | .awaiting _ (l :: _) => some (l.seat, l.generation)
  | _ => none

theorem Reaches.graceOver (h : p.graceOver now = some q) : p.Reaches q p.nextToGoOver := by
  unfold Pool.graceOver at h
  split at h
  · rename_i l rest hclosing
    cases h
    have hnext : p.nextToGoOver = some (l.seat, l.generation) := by simp [nextToGoOver, hclosing]
    rw [hnext]
    have hp : p.Reaches p (some (l.seat, l.generation)) := .of_seats rfl
    exact (hp.update _).congr rfl
  · cases h

end Close

end AnalysisServer.Pool
