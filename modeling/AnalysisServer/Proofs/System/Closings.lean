import AnalysisServer.Proofs.Pool.Departures
import AnalysisServer.Proofs.System.FinalStates

namespace AnalysisServer

open List

variable {σ : Type} {i next : Nat} {asked : List Leaver}

theorem Closing.eq_done {c : Closing} (h : c.isDone) : c = .done := by
  cases c <;> first | rfl | cases h

namespace Pool

variable {p q : Pool σ} {now : Nat} {id : RequestId} {r : Except AnalysisError Unit}
  {request : Request} {setup : PoolSetup σ} {streaming : Bool}

theorem leastBusy_mem (load : Nat → Nat) {l : List Nat} (h : l ≠ []) : leastBusy load l ∈ l := by
  induction l with
  | nil => exact (h rfl).elim
  | cons i rest ih =>
    cases rest with
    | nil => exact mem_singleton_self i
    | cons j rest =>
      simp only [leastBusy]
      split
      · exact .tail _ (ih nofun)
      · exact mem_cons_self

theorem choose_lt [Digest] (setup : PoolSetup σ) (h : 0 < p.seats.length) (r : Request) :
    (p.choose setup r).1 < p.seats.length := by
  unfold choose
  dsimp only
  split
  · exact Nat.mod_lt _ h
  · have hne : ((List.range p.seats.length).map fun offset ↦
        (p.turn % p.seats.length + offset) % p.seats.length) ≠ [] := by
      simpa using ne_nil_of_length_pos h
    obtain ⟨offset, -, hoffset⟩ := mem_map.mp (leastBusy_mem p.load hne)
    rw [← hoffset]
    exact Nat.mod_lt _ h

theorem length_lives (p : Pool σ) : p.roll.lives.length = p.workers.length :=
  length_map ..

theorem length_posts (p : Pool σ) : p.roll.posts.length = p.seats.length :=
  length_map ..

theorem workers_of_mailroom (h : q.mailroom.desks.length = p.mailroom.desks.length) :
    q.workers.length = p.workers.length := by
  simpa [mailroom] using h

theorem workers_workerStep [Digest] {engine : RuleEngine σ} {w : WorkerId}
    (h : p.workerStep engine w = some q) : q.workers.length = p.workers.length := by
  have hshift := workerStep_shift h
  generalize p.utters engine w = said at hshift
  refine workers_of_mailroom ?_
  generalize q.mailroom = m at hshift
  cases hshift <;> simp [Mailroom.setDesk, Mailroom.say]

theorem not_giveNumber (hc : p.closed) (h : p.giveNumber = (.ok id, q)) : False := by
  simp [giveNumber, hc] at h

theorem workers_hear {heard : Heard} (h : p.hear id = some (heard, q)) : q.workers.length = p.workers.length :=
  workers_of_mailroom (by rw [(mailroom_hear h).1])

theorem workers_enqueue (h : p.enqueue setup i id request streaming = (r, q)) :
    q.workers.length ≤ p.workers.length + 1 := by
  have hlength := (rolls_enqueue setup h).length_lives.2
  rwa [length_lives, length_lives] at hlength

theorem workers_enqueue_unfit {s : Post} (hs : p.roll.posts[i]? = some s)
    (hunfit : s.state.isFinal ∨ p.roll.IsDeaf s) (h : p.enqueue setup i id request streaming = (r, q)) :
    p.workers.length < q.workers.length := by
  obtain ⟨seat, hseat, rfl⟩ := posts_eq_some.mp hs
  obtain ⟨⟨hf, hdeaf⟩, -⟩ | ⟨-, hq⟩ := roll_enqueue setup hseat h
  · obtain hfinal | hdeaf' := hunfit
    · rw [show seat.post.state = seat.state from rfl, hf] at hfinal
      cases hfinal
    · exact (hdeaf hdeaf').elim
  · rw [← length_lives, ← length_lives, hq]
    simp [Roll.start, Roll.length_cut]

theorem phases_closeStep (h : p.closeStep now = some q) :
    q.workers.map Worker.phase = p.workers.map Worker.phase := by
  cases closes_of_closeStep h with
  | ask hc hi hf hw hx => exact map_set_same (f := Worker.phase) hx rfl
  | askVain | skip | await | ended | finish => rfl

theorem exists_closeStep (hc : p.closing = .asking next asked) (now : Nat) : ∃ q, p.closeStep now = some q ∧
      (p.seats.length ≤ next ∧ q.closing = .awaiting now asked ∨
        next < p.seats.length ∧ ∃ asked', q.closing = .asking (next + 1) asked') := by
  cases hs : p.seats[next]? with
  | none =>
    have hle := List.getElem?_eq_none_iff.mp hs
    exact ⟨{ p with closing := .awaiting now asked }, by simp [closeStep, hc, hs], .inl ⟨hle, rfl⟩⟩
  | some s =>
    have hlt := lt_of_getElem? hs
    refine ⟨{ (p.askToLeave next s).2 with
      closing := .asking (next + 1) (asked ++ (p.askToLeave next s).1.toList) }, ?_, .inr ⟨hlt, _, rfl⟩⟩
    simp only [closeStep, hc, hs]

end Pool

def Stage.IsWithin (n : Nat) : Stage → Prop
  | .chosen seat | .numbered seat _ | .spreading seat (some _) _ => seat < n
  | _ => True

namespace Call

variable [Digest] {setup : PoolSetup σ} {s : System σ} {x y : Call} {q : Pool σ}

theorem Step.workers_le (h : x.Step setup s q y) (hc : s.pool.closed) :
    q.workers.length + y.stage.number?.isSome.toNat ≤ s.pool.workers.length + x.stage.number?.isSome.toNat := by
  cases h with
  | remember h hr =>
    unfold Pool.remember
    split <;> exact Nat.le_add_right _ _
  | choose h hr =>
    unfold Pool.choose
    split <;> exact Nat.le_add_right _ _
  | number h hq | spreadNumber h hs hq => exact (Pool.not_giveNumber hc hq).elim
  | numberRefused h hq | spreadClosed h hs hq =>
    rw [Pool.giveNumber_error hq]
    exact Nat.le_add_right _ _
  | send h hq | sendRefused h hq | spreadSend h hs hq | spreadRefused h hs hq =>
    rw [h]
    exact Pool.workers_enqueue hq
  | hearPart h hq | hear h hq | gatherPart h hq | gatherHear h hq =>
    have hlength := Pool.workers_hear hq
    simp only [h, Stage.number?, ended, Pool.detach, Pool.setTicket]
    exact Nat.le_of_eq hlength
  | _ => exact Nat.le_add_right _ _

theorem Step.isWithin (h : x.Step setup s q y) (hn : 0 < s.pool.seats.length)
    (hx : x.stage.IsWithin s.pool.seats.length) : y.stage.IsWithin s.pool.seats.length := by
  cases h with
  | choose h hr => exact Pool.choose_lt setup hn x.request
  | number h hq =>
    rwa [h] at hx
  | spreadNumber h hs hq => exact hs
  | hearPart h hq | gatherPart h hq => exact hx
  | _ => trivial

theorem Step.starts (h : x.Step setup s q y) (hn : x.stage.number?.isSome) (hx : x.stage.IsWithin s.pool.seats.length)
    (hunfit : ∀ i, i < s.pool.seats.length →
      ∃ u, s.pool.roll.posts[i]? = some u ∧ (u.state.isFinal ∨ s.pool.roll.IsDeaf u)) :
    s.pool.workers.length < q.workers.length := by
  cases h with
  | send h hq | sendRefused h hq | spreadSend h hs hq | spreadRefused h hs hq =>
    rw [h] at hx
    obtain ⟨u, hu, hunfit⟩ := hunfit _ hx
    exact Pool.workers_enqueue_unfit hu hunfit hq
  | @gather seat id sent h hs =>
    rw [h] at hn hx
    cases id with
    | none => cases hn
    | some id =>
      replace hx : seat < s.pool.seats.length := hx
      omega
  | accept h | turnAway h | remember h | choose h | number h | numberRefused h | hearPart h | hear h
  | spreadNumber h | spreadClosed h | gathered h | gatherUnsent h | gatherPart h | gatherHear h =>
    rw [h] at hn
    cases hn

end Call

namespace System

variable {s s' t : System σ} {c i n : Nat} {x y : Call}

def underway (s : System σ) : Nat :=
  s.calls.countP fun x ↦ x.stage.number?.isSome

structure Placed (s : System σ) : Prop where
  seats : 0 < s.pool.seats.length
  calls {c : Nat} {x : Call} : s.calls[c]? = some x → x.stage.IsWithin s.pool.seats.length

theorem underway_becomes {q : Pool σ} (hx : s.calls[c]? = some x) (hb : s.Becomes s' c q y) :
    s'.underway + x.stage.number?.isSome.toNat = s.underway + y.stage.number?.isSome.toNat := by
  obtain ⟨hlt, rfl⟩ := List.getElem?_eq_some_iff.mp hx
  have hpos : s.calls[c].stage.number?.isSome → 0 < s.underway := fun h ↦ countP_pos_iff.mpr ⟨_, getElem_mem hlt, h⟩
  rw [underway, hb.calls, countP_set hlt]
  change s.underway - _ + _ + _ = _
  cases h : s.calls[c].stage.number?.isSome <;> cases y.stage.number?.isSome <;> simp_all <;> omega

section Runs

variable [Digest] {setup : SystemSetup σ} {e : Event}

theorem closed_step (h : s.step setup e = some s') (hc : s.pool.closed) : s'.pool.closed :=
  (step_rolls h).closed hc

theorem seats_step (h : s.step setup e = some s') : s'.pool.seats.length = s.pool.seats.length := by
  have hlength := (step_rolls h).length_posts
  rwa [Pool.length_posts, Pool.length_posts] at hlength

theorem workers_step (h : s.step setup e = some s') (hc : s.pool.closed) :
    s'.pool.workers.length + s'.underway ≤ s.pool.workers.length + s.underway := by
  have hcall {c : Nat} {x y : Call} {q : Pool σ} (hx : s.calls[c]? = some x) (hb : s.Becomes s' c q y)
      (hle : q.workers.length + y.stage.number?.isSome.toNat ≤ s.pool.workers.length + x.stage.number?.isSome.toNat) :
      s'.pool.workers.length + s'.underway ≤ s.pool.workers.length + s.underway := by
    have hunderway := underway_becomes hx hb
    rw [hb.pool]
    omega
  have hends {x : Call} : (x.tickets.foldl Pool.detach s.pool).workers.length + 0 ≤
      s.pool.workers.length + x.stage.number?.isSome.toNat := by
    rw [Pool.workers_of_mailroom (p := s.pool) (by rw [Pool.mailroom_detachAll])]
    omega
  have hsame (hcalls : s'.calls = s.calls) (hlength : s'.pool.workers.length = s.pool.workers.length) :
      s'.pool.workers.length + s'.underway ≤ s.pool.workers.length + s.underway := by
    rw [underway, hcalls, hlength]
    exact Nat.le_refl _
  cases proceeds_of_step h with
  | work hq => exact hsame rfl (Pool.workers_workerStep hq)
  | monitor hq => exact hsame rfl (Pool.workers_of_mailroom (by rw [Pool.mailroom_monitorStep hq]))
  | replay hq => exact hsame rfl (Pool.workers_of_mailroom (by rw [Pool.mailroom_replayStep hq]))
  | drain hq => exact hsame rfl (Pool.workers_of_mailroom (by rw [Pool.mailroom_drainStep hq]))
  | call hx hstep hb => exact hcall hx hb (hstep.workers_le hc)
  | timeUp hx _ _ hb | abandon hx _ hb => exact hcall hx hb hends
  | beginClose hq => exact hsame rfl (Pool.workers_of_mailroom (by rw [Pool.mailroom_beginClose hq]))
  | close hq =>
    refine hsame rfl ?_
    simpa using congrArg List.length (Pool.phases_closeStep hq)
  | graceOver hq => exact hsame rfl (Pool.workers_of_mailroom (by rw [Pool.mailroom_graceOver hq]))
  | shutdown hcalls hpool | drainOver hcalls hpool => exact hsame hcalls (by rw [hpool])
  | shutdownClose hcalls hq =>
    exact hsame hcalls (Pool.workers_of_mailroom (by rw [Pool.mailroom_beginClose hq]))
  | pass => exact Nat.le_refl _

theorem Placed.step {e : Event} (hs : s.Placed) (h : s.step setup e = some s') : s'.Placed := by
  have hcall {c x y q} (hx : s.calls[c]? = some x) (hb : s.Becomes s' c q y)
      (hy : y.stage.IsWithin s.pool.seats.length) : s'.Placed := by
    refine ⟨seats_step h ▸ hs.seats, fun hz ↦ ?_⟩
    rw [seats_step h]
    obtain ⟨-, rfl⟩ | ⟨-, hz⟩ := hb.calls_cases hx hz
    · exact hy
    · exact hs.calls hz
  have hsame (hcalls : s'.calls = s.calls) : s'.Placed := by
    refine ⟨seats_step h ▸ hs.seats, fun hz ↦ ?_⟩
    rw [hcalls] at hz
    exact seats_step h ▸ hs.calls hz
  cases proceeds_of_step h with
  | call hx hstep hb => exact hcall hx hb (hstep.isWithin hs.seats (hs.calls hx))
  | timeUp hx _ _ hb | abandon hx _ hb => exact hcall hx hb trivial
  | shutdown hcalls | shutdownClose hcalls | drainOver hcalls => exact hsame hcalls
  | work | monitor | replay | drain | beginClose | close | graceOver | pass => exact hsame rfl

theorem Run.workers_le (h : Run setup s t) (hc : s.pool.closed) :
    t.pool.closed ∧ t.pool.workers.length + t.underway ≤ s.pool.workers.length + s.underway := by
  induction h with
  | refl => exact ⟨hc, Nat.le_refl _⟩
  | @call t h request streaming router ih =>
    have hcalls : (t.begin { request, streaming, router }).2.underway = t.underway := by
      simp [underway, begin, Stage.number?]
    rwa [hcalls]
  | shutdown h router grace ih => exact ih
  | step h hstep ih =>
    obtain ⟨hclosed, hle⟩ := ih
    exact ⟨closed_step hstep hclosed, Nat.le_trans (workers_step hstep hclosed) hle⟩

theorem placed_run {count : Nat} {disk : Disk} {timeouts : List Nat}
    (h : Run setup (opened setup count disk timeouts) s) : s.Placed := by
  induction h with
  | refl =>
    have hseats := (Pool.filled_start setup.toPoolSetup count disk).seats
    refine ⟨?_, nofun⟩
    rw [opened, hseats]
    omega
  | call h request streaming router ih =>
    refine ⟨ih.seats, fun hx ↦ ?_⟩
    obtain hx | ⟨-, rfl⟩ := getElem?_concat_cases hx
    · exact ih.calls hx
    · trivial
  | shutdown h router grace ih => exact ⟨ih.seats, ih.calls⟩
  | step h hstep ih => exact ih.step hstep

structure Nears (setup : SystemSetup σ) (s t : System σ) : Prop where
  run : Run setup s t
  calls : t.calls = s.calls
  phases : t.pool.workers.map Worker.phase = s.pool.workers.map Worker.phase
  seats : t.pool.seats.length = s.pool.seats.length
  ripe {i : Nat} : s.pool.roll.Ripe i → t.pool.roll.Ripe i

namespace Nears

theorem trans (h : Nears setup s t) (h' : Nears setup t s') : Nears setup s s' :=
  ⟨h.run.trans h'.run, h'.calls.trans h.calls, h'.phases.trans h.phases, h'.seats.trans h.seats,
    fun hi ↦ h'.ripe (h.ripe hi)⟩

theorem step {e : Event} (h : s.step setup e = some t) (hcalls : t.calls = s.calls)
    (hphases : t.pool.workers.map Worker.phase = s.pool.workers.map Worker.phase)
    (hover : ∀ since left, s.pool.closing = .awaiting since left → left = [] ∨ s.override? e ≠ none) :
    Nears setup s t := by
  refine ⟨Run.one h, hcalls, hphases, seats_step h, fun hi ↦ ?_⟩
  refine (step_rolls h).ripe ?_ hover hi
  simpa [Pool.roll, Function.comp_def, Worker.life] using hphases

theorem close {next : Nat} {asked : List Leaver} {q : Pool σ} (hc : s.pool.closing = .asking next asked)
    (hq : s.pool.closeStep s.now = some q) : Nears setup s { s with pool := q } := by
  have hstep : s.step setup .close = some { s with pool := q } := by simp [System.step, hq]
  refine .step hstep rfl (Pool.phases_closeStep hq) fun since left hc' ↦ ?_
  cases hc.symm.trans hc'

end Nears

theorem nears_done (setup : SystemSetup σ) {since : Nat} {left : List Leaver}
    (hc : s.pool.closing = .awaiting since left) : ∃ t, Nears setup s t ∧ t.pool.closing = .done := by
  induction left generalizing s since with
  | nil =>
    have hstep : s.step setup .close = some { s with pool := { s.pool with closing := .done } } := by
      simp [System.step, Pool.closeStep, hc]
    refine ⟨_, .step hstep rfl rfl fun since' left' hc' ↦ ?_, rfl⟩
    cases hc.symm.trans hc'
    exact .inl rfl
  | cons l rest ih =>
    obtain ⟨q, hq, hworkers, hrest⟩ : ∃ q, s.pool.graceOver s.now = some q ∧ q.workers = s.pool.workers ∧
        q.closing = .awaiting s.now rest := by
      simp only [Pool.graceOver, hc]
      exact ⟨_, rfl, rfl, rfl⟩
    have hstep : s.step setup .graceOver = some { s with pool := q } := by simp [System.step, hq]
    have hone : Nears setup s { s with pool := q } := by
      refine .step hstep rfl (by rw [hworkers]) fun since' left' hc' ↦ .inr ?_
      simp [override?, Pool.nextToGoOver, hc]
    obtain ⟨t, ht, hdone⟩ := ih (s := { s with pool := q }) hrest
    exact ⟨t, hone.trans ht, hdone⟩

theorem nears_awaiting (setup : SystemSetup σ) (hc : s.pool.closing = .asking next asked) :
    ∃ t since left, Nears setup s t ∧ t.pool.closing = .awaiting since left := by
  induction hleft : s.pool.seats.length - next generalizing s next asked with
  | zero =>
    obtain ⟨q, hq, hnext⟩ := Pool.exists_closeStep hc s.now
    have hone : Nears setup s _ := .close hc hq
    obtain ⟨-, hawaiting⟩ | ⟨hlt, -⟩ := hnext
    · exact ⟨_, _, _, hone, hawaiting⟩
    · omega
  | succ n ih =>
    obtain ⟨q, hq, hnext⟩ := Pool.exists_closeStep hc s.now
    have hone : Nears setup s _ := .close hc hq
    obtain ⟨hle, -⟩ | ⟨hlt, asked', hasking⟩ := hnext
    · omega
    · have hseats := hone.seats
      obtain ⟨t, since, left, ht, hawaiting⟩ :=
        ih (s := { s with pool := q }) hasking (by rw [hseats]; omega)
      exact ⟨t, since, left, hone.trans ht, hawaiting⟩

theorem exists_callStep (setup : PoolSetup σ) (hx : s.calls[c]? = some x) (hn : x.stage.number?.isSome) :
    ∃ t, s.callStep setup c = some t := by
  cases hst : x.stage with
  | numbered seat id =>
    simp only [callStep, hx, hst, Option.bind_eq_bind, Option.bind_some]
    split <;> exact ⟨_, rfl⟩
  | spreading seat id sent =>
    simp only [callStep, hx, hst, Option.bind_eq_bind, Option.bind_some]
    exact ⟨_, rfl⟩
  | _ =>
    rw [hst] at hn
    cases hn

theorem exists_start (hs : s.Placed) (hc : s.pool.closing = .asking 0 []) (hunderway : 0 < s.underway) :
    ∃ t, Run setup s t ∧ s.pool.workers.length < t.pool.workers.length := by
  obtain ⟨x, hmem, hnumber⟩ := countP_pos_iff.mp hunderway
  obtain ⟨c, hx⟩ := List.getElem?_of_mem hmem
  obtain ⟨t, since, left, hasked, hawaiting⟩ := nears_awaiting setup hc
  obtain ⟨u, hgone, hdone⟩ := nears_done setup hawaiting
  have hnears := hasked.trans hgone
  have hxu : u.calls[c]? = some x := hnears.calls ▸ hx
  have hunfit (i : Nat) (hi : i < u.pool.seats.length) :
      ∃ p, u.pool.roll.posts[i]? = some p ∧ (p.state.isFinal ∨ u.pool.roll.IsDeaf p) := by
    have hasking : i < s.pool.roll.posts.length := by
      rwa [Pool.length_posts, ← hnears.seats]
    exact (hnears.ripe (Roll.ripe_of_asking hasking hc)).unfit hdone
  obtain ⟨v, hv⟩ := exists_callStep setup.toPoolSetup hxu hnumber
  obtain ⟨q, y, hstep, hb⟩ := callStep_takes hxu hv
  refine ⟨v, hnears.run.step (e := .call c) hv, ?_⟩
  have hwithin : x.stage.IsWithin u.pool.seats.length := hnears.seats ▸ hs.calls hx
  have hstarts := hstep.starts hnumber hwithin hunfit
  have hlength := congrArg List.length hnears.phases
  simp only [length_map] at hlength
  rw [hb.pool]
  omega

end Runs

def Failed (s : System σ) (i g : Nat) : Prop :=
  ∃ seat, s.pool.seats[i]? = some seat ∧ seat.generation = g ∧ seat.state = .errored

def EverFailed (past : List (System σ × Event)) (s : System σ) (i g : Nat) : Prop :=
  s.Failed i g ∨ ∃ m ∈ past, m.1.Failed i g

theorem failed_of_stateAt {g : Nat} (h : stateAt s.pool.roll.posts i g = some .errored) : s.Failed i g := by
  obtain ⟨p, hp, hg, hstate⟩ := stateAt_eq_some.mp h
  obtain ⟨seat, hseat, rfl⟩ := Pool.posts_eq_some.mp hp
  exact ⟨seat, hseat, hg, hstate⟩

/-- Whoever is at work is accounted for, with so many workers when the pool was closed. -/
structure Tallied (n : Nat) (past : List (System σ × Event)) (s : System σ) : Prop where
  sound : s.pool.roll.Sound (Overdue past)
  accounted : s.pool.roll.Accounted n (EverFailed past s)

section

variable [Digest] {setup : SystemSetup σ} {past : List (System σ × Event)} {e : Event}

theorem Tallied.step (hs : Tallied n past s) (h : s.step setup e = some t)
    (hn : t.pool.closed → n ≤ s.pool.workers.length) : Tallied n (past ++ [(s, e)]) t := by
  have hrolls := step_rolls h
  have hsound : t.pool.roll.Sound (Overdue (past ++ [(s, e)])) :=
    (hs.sound.step hrolls).congr fun i g ↦ mem_overrides_concat.symm
  refine ⟨hsound, hs.accounted.step hs.sound hrolls (fun hc ↦ ?_) (fun i g hf ↦ ?_) (fun i g hf ↦ ?_) fun i g hf ↦ ?_⟩
  · rw [Pool.length_lives]
    refine hn ?_
    by_contra hopen
    exact hc (hsound.early (Bool.eq_false_iff.mpr hopen))
  · exact .inr ⟨(s, e), mem_append_right _ (mem_singleton_self _), failed_of_stateAt hf⟩
  · exact .inl (failed_of_stateAt hf)
  · obtain hf | ⟨m, hm, hf⟩ := hf
    · exact .inr ⟨(s, e), mem_append_right _ (mem_singleton_self _), hf⟩
    · exact .inr ⟨m, mem_append_left _ hm, hf⟩

variable {count : Nat} {disk : Disk} {timeouts : List Nat} {before after : List Deed} {s₀ s₁ : System σ}

theorem tallied_before (n : Nat) (h : perform setup before (opened setup count disk timeouts) = some s)
    (hopen : s.pool.closed = false) :
    Tallied n (moments setup before (opened setup count disk timeouts)) s := by
  have hsound : (opened setup count disk timeouts).pool.roll.Sound (Overdue (moments setup [] _)) :=
    sound_perform rfl
  have hstart : Tallied n [] (opened setup count disk timeouts) :=
    ⟨hsound, Pool.accounted_start setup.toPoolSetup count disk n _⟩
  refine perform_induction (P := fun past s ↦ s.pool.closed = false → Tallied n past s)
    (fun _ _ _ h ho ↦ ⟨(h ho).sound, (h ho).accounted⟩) (fun _ _ _ _ h ho ↦ ⟨(h ho).sound, (h ho).accounted⟩)
    (fun past s e u hu hs hopen ↦ ?_) (fun _ ↦ hstart) h hopen
  have hclosed : s.pool.closed = false := by
    by_contra hc
    rw [closed_step hu (Bool.not_eq_false _ ▸ hc)] at hopen
    cases hopen
  refine (hs hclosed).step hu fun hc ↦ ?_
  rw [hopen] at hc
  cases hc

theorem tallied_after (hs : Tallied n past s) (hclosed : s.pool.closed) (hn : n ≤ s.pool.workers.length)
    (h : perform setup after s = some t) : Tallied n (past ++ moments setup after s) t := by
  refine (perform_induction (P := fun past s ↦ Tallied n past s ∧ s.pool.closed ∧ n ≤ s.pool.workers.length)
    (fun _ _ _ h ↦ ⟨⟨h.1.sound, h.1.accounted⟩, h.2⟩) (fun _ _ _ _ h ↦ ⟨⟨h.1.sound, h.1.accounted⟩, h.2⟩)
    (fun past s e u hu hs ↦ ?_) ⟨hs, hclosed, hn⟩ h).1
  obtain ⟨hs, hclosed, hn⟩ := hs
  have hmore := (step_rolls hu).length_lives.1
  rw [Pool.length_lives, Pool.length_lives] at hmore
  exact ⟨hs.step hu fun _ ↦ hn, closed_step hu hclosed, Nat.le_trans hn hmore⟩

/-- From the moment a pool is closed, no more workers are started than there were requests with a number that
had not been sent, and one is started in some run if there was any. In the end a worker at work was started
like this, or its seat was taken for failed at some time. -/
theorem workers_accounted_at_close (hbefore : perform setup before (opened setup count disk timeouts) = some s₀)
    (hopen : s₀.pool.closed = false) (hstep : s₀.step setup e = some s₁) (hclosed : s₁.pool.closed)
    (hafter : perform setup after s₁ = some s) :
    s.pool.workers.length + s.underway ≤ s₁.pool.workers.length + s₁.underway ∧
      ((∃ t, Run setup s₁ t ∧ s₁.pool.workers.length < t.pool.workers.length) ↔ 0 < s₁.underway) ∧
      (s.pool.closing.isDone → ∀ w x, s.pool.workers[w]? = some x → x.phase.works → s₁.pool.workers.length ≤ w ∨
          EverFailed (moments setup before (opened setup count disk timeouts) ++ [(s₀, e)] ++
            moments setup after s₁) s x.seat x.generation) := by
  have hbegin := (step_rolls hstep).eq_of_closed hopen hclosed
  have hlength : s₁.pool.workers.length = s₀.pool.workers.length := by
    rw [← Pool.length_lives, ← Pool.length_lives, hbegin]
  refine ⟨(Run.refl.perform hafter |>.workers_le hclosed).2, ⟨fun ⟨t, ht, hlt⟩ ↦ ?_, fun hpos ↦ ?_⟩,
    fun hdone w x hx hworks ↦ ?_⟩
  · have hle := (ht.workers_le hclosed).2
    omega
  · have hplaced := (placed_run (Run.refl.perform hbefore)).step hstep
    have hasking : s₁.pool.closing = .asking 0 [] := congrArg Roll.closing hbegin
    exact exists_start hplaced hasking hpos
  · have htallied := tallied_before s₁.pool.workers.length hbefore hopen
    have hnow := htallied.step hstep fun _ ↦ Nat.le_of_eq hlength
    have hend := tallied_after hnow hclosed (Nat.le_refl _) hafter
    obtain hlate | hfailed | ⟨-, hpending⟩ := hend.accounted (Pool.lives_of hx) hworks
    · exact .inl hlate
    · exact .inr hfailed
    · rw [show s.pool.roll.closing = .done from Closing.eq_done hdone] at hpending
      exact hpending.elim

end

def numbering : List Deed :=
  calling styleRequest none [.call 0, .call 0, .call 0]

def sendingLate : List Deed :=
  [.close, .close, .work 0, .work 0, .monitor 0, .monitor 0, .work 0, .monitor 0, .close, .close, .call 0].map .event

def rejecting : List Deed :=
  calling (.initLinter bundledLinter) none [.call 0, .call 0, .call 0, .call 0, .work 0, .work 0] ++
    calling styleRequest none
      [.call 1, .call 1, .call 1, .call 1, .work 0, .work 0, .work 0, .monitor 0, .monitor 0] ++
    calling styleRequest none [.call 2, .call 2, .call 2, .call 2, .work 1, .work 1, .replay 1]

def atWork (s : System Bool) : List (Nat × Nat × Bool) :=
  (s.pool.workers.filter fun x ↦ x.phase.works).map fun x ↦ (x.seat, x.generation, x.life.asked)

theorem workers_accounted_at_close_sendingLate : ∃ s₀ s₁ s : System Bool,
    perform (brittleSetup fun _ ↦ true) numbering (opened (brittleSetup fun _ ↦ true) 1 {} []) = some s₀ ∧
      s₀.pool.closed = false ∧ s₀.step (brittleSetup fun _ ↦ true) .beginClose = some s₁ ∧ s₁.pool.closed ∧
      perform (brittleSetup fun _ ↦ true) sendingLate s₁ = some s ∧ s.pool.closing.isDone ∧
      (s.pool.workers.length + s.underway ≤ s₁.pool.workers.length + s₁.underway ∧
        ((∃ t, Run (brittleSetup fun _ ↦ true) s₁ t ∧ s₁.pool.workers.length < t.pool.workers.length) ↔
          0 < s₁.underway) ∧
        (s.pool.closing.isDone → ∀ w x, s.pool.workers[w]? = some x → x.phase.works → s₁.pool.workers.length ≤ w ∨
            EverFailed (moments (brittleSetup fun _ ↦ true) numbering
                (opened (brittleSetup fun _ ↦ true) 1 {} []) ++ [(s₀, .beginClose)] ++
              moments (brittleSetup fun _ ↦ true) sendingLate s₁) s x.seat x.generation)) := by
  have hcheck : (perform (brittleSetup fun _ ↦ true) numbering
      (opened (brittleSetup fun _ ↦ true) 1 {} [])).any fun s₀ ↦
        s₀.pool.closed = false ∧ (s₀.step (brittleSetup fun _ ↦ true) .beginClose).any fun s₁ ↦ s₁.pool.closed ∧
            (perform (brittleSetup fun _ ↦ true) sendingLate s₁).any fun s ↦ s.pool.closing.isDone := by
    decide +kernel
  obtain ⟨s₀, hbefore, hcheck⟩ := (Option.any_eq_true _ _).mp hcheck
  obtain ⟨hopen, hcheck⟩ := of_decide_eq_true hcheck
  obtain ⟨s₁, hstep, hcheck⟩ := (Option.any_eq_true _ _).mp hcheck
  obtain ⟨hclosed, hcheck⟩ := of_decide_eq_true hcheck
  obtain ⟨s, hafter, hdone⟩ := (Option.any_eq_true _ _).mp hcheck
  exact ⟨s₀, s₁, s, hbefore, hopen, hstep, hclosed, hafter, hdone,
    workers_accounted_at_close hbefore hopen hstep hclosed hafter⟩

/-- When a pool has been closed, a worker may be at work that nobody has asked to leave: one that was
started after the others had left, or one that had been taken for failed before. -/
theorem worker_left_at_close : (∃ s₁ s : System Bool,
      perform (brittleSetup fun _ ↦ true) (numbering ++ [.event .beginClose])
        (opened (brittleSetup fun _ ↦ true) 1 {} []) = some s₁ ∧ s₁.pool.closed ∧
      perform (brittleSetup fun _ ↦ true) sendingLate s₁ = some s ∧ s.pool.closing.isDone ∧
      standing s₁ = [(1, .starting)] ∧ standing s = [(2, .starting)] ∧ atWork s = [(0, 2, false)]) ∧
    ∃ s₁ s : System Bool, perform (brittleSetup (· == 0)) (rejecting ++ [.event .beginClose])
        (opened (brittleSetup (· == 0)) 1 {} []) = some s₁ ∧ s₁.pool.closed ∧
      perform (brittleSetup (· == 0)) [.event .close, .event .close, .event .close] s₁ = some s ∧
      s.pool.closing.isDone ∧
      standing s₁ = [(2, .errored)] ∧ standing s = [(2, .errored)] ∧ atWork s = [(0, 2, false)] := by
  have hfind {ready : WorkerId → Bool} {before after : List Deed} {a b : List (Nat × WorkerState)}
      {left : List (Nat × Nat × Bool)}
      (h : (perform (brittleSetup ready) before (opened (brittleSetup ready) 1 {} [])).any fun s₁ ↦
        (s₁.pool.closed ∧ standing s₁ = a) ∧ (perform (brittleSetup ready) after s₁).any fun s ↦
          s.pool.closing.isDone ∧ standing s = b ∧ atWork s = left) :
      ∃ s₁ s, perform (brittleSetup ready) before (opened (brittleSetup ready) 1 {} []) = some s₁ ∧
        s₁.pool.closed ∧ perform (brittleSetup ready) after s₁ = some s ∧ s.pool.closing.isDone ∧ standing s₁ = a ∧
        standing s = b ∧ atWork s = left := by
    obtain ⟨s₁, hs₁, h⟩ := (Option.any_eq_true _ _).mp h
    obtain ⟨⟨hclosed, ha⟩, h⟩ := of_decide_eq_true h
    obtain ⟨s, hs, h⟩ := (Option.any_eq_true _ _).mp h
    obtain ⟨hdone, hb, hleft⟩ := of_decide_eq_true h
    exact ⟨s₁, s, hs₁, hclosed, hs, hdone, ha, hb, hleft⟩
  exact ⟨hfind (by decide +kernel), hfind (by decide +kernel)⟩

end System

end AnalysisServer
