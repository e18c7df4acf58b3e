import AnalysisServer.Proofs.System.Moments

namespace AnalysisServer

theorem WorkerState.eq_of_isFinal {a : WorkerState} (h : a.isFinal) : a = .exited ∨ a = .errored := by
  cases a <;> simp_all [isFinal]

namespace Roll

variable {r r' : Roll} {i g : Nat} {s t : Post} {o : Option Override} {overdue : Nat → Nat → Prop}
  {a : WorkerState} {late : Prop} {later : List Override}

theorem Step.generation_le (h : r.Step o r') (hs : r.posts[i]? = some s) :
    ∃ t, r'.posts[i]? = some t ∧ s.generation ≤ t.generation := by
  obtain ⟨hposts, -⟩ | ⟨j, u, hu, rfl⟩ := h.seating
  · obtain ⟨t, ht, heq⟩ := getElem?_of_map hposts.symm hs
    exact ⟨t, ht, Nat.le_of_eq (Prod.mk.inj heq).2.symm⟩
  · by_cases hj : j = i
    · subst hj
      cases hs.symm.trans hu
      exact ⟨_, (getElem?_set_of hu _).trans (if_pos rfl), Nat.le_succ _⟩
    · exact ⟨s, (getElem?_set_of hu _).trans ((if_neg hj).trans hs), Nat.le_refl _⟩

theorem Step.mayExit_of_exited (h : r.Step (some ⟨i, g, .exited⟩) r') (hr : r.Sound overdue) :
    ∃ (w : WorkerId) (x : Life), r.lives[w]? = some x ∧ x.seat = i ∧ x.generation = g ∧ x.MayExit := by
  cases h with
  | @readExit w x rest s hx hm hn hs hg =>
    have hsound := hr.life hx
    rw [state?, stateAt_of hs hg] at hsound
    exact ⟨w, x, hx, rfl, rfl, Life.Fares.mayExit_of_exited (.readExit s.state hm hn) hsound⟩

theorem Step.not_overdue (h : r.Step (some ⟨i, g, .errored⟩) r') (hr : r.Sound overdue) : ¬ overdue i g := by
  have hfits := hr.fits
  cases h with
  | grace hc now =>
    rw [hc] at hfits
    exact hfits.2 _ (.head _)

/-- What has been given to a generation of a seat later on is not what it had when it came to its end. -/
def Turned (i g : Nat) (a : WorkerState) (late : Prop) (later : List Override) : Prop :=
  (a = .exited ∧ ⟨i, g, .errored⟩ ∈ later) ∨ (a = .errored ∧ late ∧ ⟨i, g, .exited⟩ ∈ later)

/-- What holds of a generation of a seat since it came to its end in some state. -/
structure Held (i g : Nat) (a : WorkerState) (late : Prop) (later : List Override) (r : Roll) (s : Post) :
    Prop where
  final : s.state.isFinal
  turned : s.state ≠ a ↔ Turned i g a late later
  exited {w : WorkerId} {x : Life} : r.lives[w]? = some x → x.seat = i → x.generation = g →
    a = .exited → x.monitor ≠ .watching false
  errored {w : WorkerId} {x : Life} : r.lives[w]? = some x → x.seat = i → x.generation = g →
    a = .errored → x.MayExit → late

theorem Step.fares_of_current (h : r.Step o r') (hr : r.Matched) (hs : r.posts[i]? = some s)
    (hg : s.generation = g) {w : WorkerId} {y : Life} (hy : r'.lives[w]? = some y) (hseat : y.seat = i)
    (hyg : y.generation = g) : ∃ x, r.lives[w]? = some x ∧ x.seat = i ∧ x.generation = g ∧
      r.state? x = some s.state ∧ x.Fares (Override.at? o i g) (some s.state) (r'.state? y) y := by
  obtain ⟨x, hx, hfares⟩ | ⟨-, j, u, hu, rfl, -⟩ := h.fares hr hy
  · obtain ⟨hseat', hg'⟩ := hfares.same
    have hxi : x.seat = i := hseat'.symm.trans hseat
    have hxg : x.generation = g := hg'.symm.trans hyg
    have hstate : r.state? x = some s.state := stateAt_of (hxi.symm ▸ hs) (hg.trans hxg.symm)
    rw [hstate, hxi, hxg] at hfares
    exact ⟨x, hx, hxi, hxg, hstate, hfares⟩
  · replace hyg : u.generation + 1 = g := hyg
    subst hseat
    cases hs.symm.trans hu
    omega

theorem Held.given (hk : Held i g a late later r s) (hr : r.Sound overdue) (hlate : late → overdue i g)
    (ha : a.isFinal) {b : WorkerState} (h : r.Step (some ⟨i, g, b⟩) r') :
    b.isFinal ∧ (b ≠ a ↔ Turned i g a late (later ++ [⟨i, g, b⟩])) := by
  rw [Turned]
  obtain rfl | rfl := h.given
  · obtain ⟨w, x, hx, hxi, hxg, hmay⟩ := h.mayExit_of_exited hr
    obtain rfl : a = .errored :=
      (WorkerState.eq_of_isFinal ha).resolve_left fun hae ↦ hk.exited hx hxi hxg hae hmay.1
    have hl := hk.errored hx hxi hxg rfl hmay
    exact ⟨rfl, by simp [hl]⟩
  · have hl : ¬ late := fun hl ↦ h.not_overdue hr (hlate hl)
    refine ⟨rfl, ?_⟩
    obtain rfl | rfl := WorkerState.eq_of_isFinal ha <;> simp [hl]

theorem Held.step (hk : Held i g a late later r s) (hs : r.posts[i]? = some s) (hg : s.generation = g)
    (hr : r.Sound overdue) (hlate : late → overdue i g) (ha : a.isFinal) (h : r.Step o r')
    (ht : r'.posts[i]? = some t) (htg : t.generation = g) : Held i g a late (later ++ o.toList) r' t := by
  obtain ⟨hfinal, hturned⟩ : t.state.isFinal ∧ (t.state ≠ a ↔ Turned i g a late (later ++ o.toList)) := by
    obtain ⟨t', ht', hnext | ⟨-, hstate⟩⟩ := h.final hs hk.final
    · cases ht.symm.trans ht'
      omega
    cases ht.symm.trans ht'
    rw [hg] at hstate
    cases ho : Override.at? o i g with
    | none =>
      have hno (b : WorkerState) : ⟨i, g, b⟩ ∈ later ++ o.toList ↔ ⟨i, g, b⟩ ∈ later := by
        rw [List.mem_append, Option.mem_toList]
        refine or_iff_left fun hb ↦ ?_
        simp [Override.at?, hb] at ho
      rw [hstate, ho, Turned, hno, hno]
      exact ⟨hk.final, hk.turned⟩
    | some b =>
      obtain rfl := Override.eq_of_at? ho
      rw [hstate, ho]
      exact hk.given hr hlate ha h
  refine ⟨hfinal, hturned, fun hy hseat hyg hae ↦ ?_, fun hy hseat hyg hae hmay ↦ ?_⟩
  · obtain ⟨x, hx, hxi, hxg, -, hfares⟩ := h.fares_of_current hr.matched hs hg hy hseat hyg
    exact hfares.unwatched (hk.exited hx hxi hxg hae)
  · obtain ⟨x, hx, hxi, hxg, hstate, hfares⟩ := h.fares_of_current hr.matched hs hg hy hseat hyg
    have hconnected := (hr.life hx).connected (by rw [hstate]; simp)
    exact hk.errored hx hxi hxg hae (hfares.mayExit hk.final hconnected hmay)

theorem Sound.held (hr : r.Sound overdue) (hs : r.posts[i]? = some s) (hf : s.state.isFinal) :
    Held i s.generation s.state (overdue i s.generation) [] r s := by
  have hlife {w : WorkerId} {x : Life} (hx : r.lives[w]? = some x) (hxi : x.seat = i)
      (hxg : x.generation = s.generation) : x.Sound (some s.state) (overdue i s.generation) := by
    have hsound := hr.life hx
    rwa [state?, hxi, hxg, stateAt_of hs rfl] at hsound
  refine ⟨hf, by simp [Turned], fun hx hxi hxg hae ↦ ?_, fun hx hxi hxg hae hmay ↦ ?_⟩
  · exact ((hlife hx hxi hxg).exited (congrArg some hae)).1
  · refine ((hlife hx hxi hxg).mayExit nofun hmay).resolve_left fun hc ↦ ?_
    rw [hae] at hc
    cases hc

end Roll

namespace System

variable {σ : Type}

/-- The monitor of the worker of a generation of a seat has read that it leaves. -/
def TookLeave (past : List (System σ × Event)) (i g : Nat) : Prop :=
  ⟨i, g, .exited⟩ ∈ overrides past

theorem overrides_concat (past : List (System σ × Event)) (s : System σ) (e : Event) :
    overrides (past ++ [(s, e)]) = overrides past ++ (s.override? e).toList := by
  simp only [overrides, List.filterMap_append, List.filterMap_cons, List.filterMap_nil]
  cases s.override? e <;> rfl

section

variable [Digest] {setup : SystemSetup σ} {s s' : System σ} {count i : Nat} {disk : Disk}
  {timeouts : List Nat} {before after : List Deed} {seat : Seat}

/-- Once nothing is to be expected of a seat, the state of its generation changes in two cases only: the
worker had left in order and its time of grace ran out afterwards, or its time of grace had run out and its
monitor read afterwards that it leaves. -/
theorem final_state_changes_iff (hbefore : perform setup before (opened setup count disk timeouts) = some s)
    (hafter : perform setup after s = some s') (hseat : s.pool.seats[i]? = some seat)
    (hfinal : seat.state.isFinal) :
    ∃ seat', s'.pool.seats[i]? = some seat' ∧ seat.generation ≤ seat'.generation ∧
      (seat'.generation = seat.generation → seat'.state.isFinal ∧ (seat'.state ≠ seat.state ↔
          (seat.state = .exited ∧ Overdue (moments setup after s) i seat.generation) ∨
          (seat.state = .errored ∧
            Overdue (moments setup before (opened setup count disk timeouts)) i seat.generation ∧
            TookLeave (moments setup after s) i seat.generation))) := by
  let past := moments setup before (opened setup count disk timeouts)
  let Inv (later : List (System σ × Event)) (u : System σ) : Prop :=
    u.pool.roll.Sound (Overdue (past ++ later)) ∧ ∃ t, u.pool.roll.posts[i]? = some t ∧
      seat.generation ≤ t.generation ∧ (t.generation = seat.generation →
        Roll.Held i seat.generation seat.state (Overdue past i seat.generation) (overrides later) u.pool.roll t)
  have hsound : s.pool.roll.Sound (Overdue past) := sound_perform hbefore
  have hstart : Inv [] s := by
    have hpost := Pool.posts_of hseat
    refine ⟨?_, seat.post, hpost, Nat.le_refl _, fun _ ↦ hsound.held hpost hfinal⟩
    rw [List.append_nil]
    exact hsound
  have hstep (later : List (System σ × Event)) (u : System σ) (e : Event) (v : System σ)
      (hv : u.step setup e = some v) (hu : Inv later u) : Inv (later ++ [(u, e)]) v := by
    obtain ⟨hr, t, ht, hle, hheld⟩ := hu
    have hrolls := step_rolls hv
    refine ⟨?_, ?_⟩
    · rw [← List.append_assoc]
      exact (hr.step hrolls).congr fun _ _ ↦ mem_overrides_concat.symm
    · obtain ⟨t', ht', hle'⟩ := hrolls.generation_le ht
      refine ⟨t', ht', Nat.le_trans hle hle', fun hg' ↦ ?_⟩
      have hg : t.generation = seat.generation := by omega
      rw [overrides_concat]
      exact (hheld hg).step ht hg hr (fun h ↦ mem_overrides_append.mpr (.inl h)) hfinal hrolls ht' hg'
  have hend : Inv ([] ++ moments setup after s) s' :=
    perform_induction (P := Inv) (fun _ _ _ h ↦ h) (fun _ _ _ _ h ↦ h) hstep hstart hafter
  obtain ⟨-, t, ht, hle, hheld⟩ := hend
  obtain ⟨seat', hseat', rfl⟩ := Pool.posts_eq_some.mp ht
  exact ⟨seat', hseat', hle, fun hg ↦ ⟨(hheld hg).final, (hheld hg).turned⟩⟩

end

def asking : List Deed :=
  [.event .beginClose, .event .close, .event .close]

def takingLeave : List Deed :=
  [.event (.work 0), .event (.work 0), .event (.monitor 0), .event (.monitor 0)]

def standing (s : System Bool) : List (Nat × WorkerState) :=
  s.pool.seats.map fun seat ↦ (seat.generation, seat.state)

/-- A worker starts only when its time of grace has run out. -/
theorem final_state_changes_iff_slowStart : ∃ (s s' : System Bool) (seat seat' : Seat),
    perform (brittleSetup fun _ ↦ true) (asking ++ [.event .graceOver])
        (opened (brittleSetup fun _ ↦ true) 1 {} []) = some s ∧
      perform (brittleSetup fun _ ↦ true) takingLeave s = some s' ∧ s.pool.seats[0]? = some seat ∧
      seat.state = .errored ∧ s'.pool.seats[0]? = some seat' ∧
      (seat'.generation = seat.generation → seat'.state.isFinal ∧ (seat'.state ≠ seat.state ↔ (seat.state = .exited ∧
            Overdue (moments (brittleSetup fun _ ↦ true) takingLeave s) 0 seat.generation) ∨
          (seat.state = .errored ∧ Overdue (moments (brittleSetup fun _ ↦ true) (asking ++ [.event .graceOver])
              (opened (brittleSetup fun _ ↦ true) 1 {} [])) 0 seat.generation ∧
            TookLeave (moments (brittleSetup fun _ ↦ true) takingLeave s) 0 seat.generation))) := by
  have hcheck : (perform (brittleSetup fun _ ↦ true) (asking ++ [.event .graceOver])
      (opened (brittleSetup fun _ ↦ true) 1 {} [])).any fun s ↦
        standing s = [(1, .errored)] ∧ (perform (brittleSetup fun _ ↦ true) takingLeave s).isSome := by
    decide +kernel
  obtain ⟨s, hbefore, hs⟩ := (Option.any_eq_true _ _).mp hcheck
  obtain ⟨hstanding, hsome⟩ := of_decide_eq_true hs
  obtain ⟨s', hafter⟩ := Option.isSome_iff_exists.mp hsome
  have hfirst : (standing s)[0]? = some (1, .errored) := by rw [hstanding]; rfl
  rw [standing, List.getElem?_map] at hfirst
  obtain ⟨seat, hseat, heq⟩ := Option.map_eq_some_iff.mp hfirst
  have hstate : seat.state = .errored := (Prod.mk.inj heq).2
  obtain ⟨seat', hseat', -, hiff⟩ :=
    final_state_changes_iff hbefore hafter hseat (by rw [hstate]; rfl)
  exact ⟨s, s', seat, seat', hbefore, hafter, hseat, hstate, hseat', hiff⟩

/-- A worker whose time of grace has run out is taken for failed and then for gone in order, or, if it
says in time that it leaves, for gone in order and then for failed. -/
theorem final_states_swap : (∃ s s' : System Bool, perform (brittleSetup fun _ ↦ true) (asking ++ [.event .graceOver])
        (opened (brittleSetup fun _ ↦ true) 1 {} []) = some s ∧
      perform (brittleSetup fun _ ↦ true) takingLeave s = some s' ∧
      standing s = [(1, .errored)] ∧ standing s' = [(1, .exited)]) ∧
    ∃ s s' : System Bool, perform (brittleSetup fun _ ↦ true) (asking ++ takingLeave)
        (opened (brittleSetup fun _ ↦ true) 1 {} []) = some s ∧
      perform (brittleSetup fun _ ↦ true) [.event .graceOver] s = some s' ∧
      standing s = [(1, .exited)] ∧ standing s' = [(1, .errored)] := by
  have hfind {before after : List Deed} {a b : List (Nat × WorkerState)}
      (h : (perform (brittleSetup fun _ ↦ true) before (opened (brittleSetup fun _ ↦ true) 1 {} [])).any
        fun s ↦ standing s = a ∧ (perform (brittleSetup fun _ ↦ true) after s).any fun s' ↦ standing s' = b) :
      ∃ s s', perform (brittleSetup fun _ ↦ true) before (opened (brittleSetup fun _ ↦ true) 1 {} []) = some s ∧
        perform (brittleSetup fun _ ↦ true) after s = some s' ∧ standing s = a ∧ standing s' = b := by
    obtain ⟨s, hs, h⟩ := (Option.any_eq_true _ _).mp h
    obtain ⟨ha, h⟩ := of_decide_eq_true h
    obtain ⟨s', hs', hb⟩ := (Option.any_eq_true _ _).mp h
    exact ⟨s, s', hs, hs', ha, of_decide_eq_true hb⟩
  exact ⟨hfind (by decide +kernel), hfind (by decide +kernel)⟩

end System

end AnalysisServer
