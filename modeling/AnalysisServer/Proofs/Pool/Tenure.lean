import AnalysisServer.Proofs.Pool.Lives

namespace AnalysisServer

open List

/-- The state of a generation of a seat, unless another generation is in the seat. -/
def stateAt (posts : List Post) (i g : Nat) : Option WorkerState :=
  posts[i]?.bind fun s ↦ if s.generation = g then some s.state else none

def Override.at? (o : Option Override) (i g : Nat) : Option WorkerState :=
  o.bind fun o ↦ if o.seat = i ∧ o.generation = g then some o.state else none

/-- What can become of a worker and of the state of its seat, if it has one, in one step in which a
state may be given to it. -/
inductive Life.Fares (x : Life) : Option WorkerState → Option WorkerState → Option WorkerState → Life → Prop
  | stay (a : Option WorkerState) : Fares x none a a x
  | shift {a b} (h : a.Shifts b) : Fares x none (some a) (some b) x
  | move {y} (a : Option WorkerState) (h : x.Moves y) : Fares x none a a y
  | readOnline {a b rest} (hn : x.notes = .online :: rest) (h : a.Shifts b) :
      Fares x none (some a) (some b) { x with notes := rest }
  | readExit {rest} (a : WorkerState) (hm : x.monitor ≠ .through) (hn : x.notes = .exited :: rest) :
      Fares x (some .exited) (some a) (some .exited) { x with notes := rest, monitor := .watching true }
  | turnAway : Fares x none none none { x with monitor := .through }
  | seenOff (a : Option WorkerState) (hm : x.monitor = .watching true) (hp : x.phase.speaks = false) :
      Fares x none a a { x with monitor := .through }
  | missed (a : Option WorkerState) (hm : x.monitor = .watching false) (hn : x.notes = [])
      (hp : x.phase.speaks = false) :
      Fares x none a (a.map fun a ↦ if a.isFinal then a else .errored) { x with monitor := .through }
  | replaced {a} (h : a.isFinal ∨ x.phase.listens = false) : Fares x none (some a) none { x with connected := false }
  | ask {a} (hf : a.isFinal = false) : Fares x none (some a) (some .closing) { x with asked := true }
  | askVain {a} (hf : a.isFinal = false) (hl : x.phase.listens = false) : Fares x none (some a) (some .closing) x
  | grace (a : Option WorkerState) : Fares x (some .errored) a (a.map fun _ ↦ .errored) x

theorem Life.Moves.same {x y : Life} (h : x.Moves y) : y.seat = x.seat ∧ y.generation = x.generation := by
  cases h <;> exact ⟨rfl, rfl⟩

theorem Life.Fares.same {x y : Life} {o a b : Option WorkerState} (h : x.Fares o a b y) :
    y.seat = x.seat ∧ y.generation = x.generation := by
  cases h with
  | move a h => exact h.same
  | _ => exact ⟨rfl, rfl⟩

section StateAt

variable {posts : List Post} {i j g : Nat} {s : Post} {a : WorkerState}

theorem stateAt_eq_some : stateAt posts i g = some a ↔ ∃ s, posts[i]? = some s ∧ s.generation = g ∧ s.state = a := by
  simp [stateAt, Option.bind_eq_some_iff]

theorem stateAt_of (hs : posts[i]? = some s) (hg : s.generation = g) : stateAt posts i g = some s.state :=
  stateAt_eq_some.mpr ⟨s, hs, hg, rfl⟩

theorem stateAt_set (hs : posts[i]? = some s) (a : WorkerState) (j g : Nat) :
    stateAt (posts.set i { s with state := a }) j g =
      if i = j ∧ s.generation = g then some a else stateAt posts j g := by
  simp only [stateAt, getElem?_set_of hs]
  by_cases hj : i = j
  · subst hj
    by_cases hg : s.generation = g <;> simp [hs, hg]
  · simp [hj]

theorem stateAt_modify (P : Post → Prop) [DecidablePred P] (a : WorkerState) (i j g : Nat) :
    stateAt (posts.modify i fun s ↦ if P s then { s with state := a } else s) j g =
      posts[j]?.bind fun s ↦ if s.generation = g then some (if i = j ∧ P s then a else s.state) else none := by
  simp only [stateAt, List.getElem?_modify]
  cases posts[j]? with
  | none => rfl
  | some s =>
    by_cases hj : i = j <;> by_cases hP : P s <;> simp [hj, hP]

end StateAt

namespace Roll

variable {r r' : Roll} {w v : WorkerId} {x y : Life} {i : Nat} {s : Post} {o : Option Override}

structure Matched (r : Roll) : Prop where
  seated {i : Nat} {s : Post} {w : WorkerId} : r.posts[i]? = some s → s.worker = some w →
    ∃ x, r.lives[w]? = some x ∧ x.seat = i ∧ x.generation = s.generation
  known {w : WorkerId} {x : Life} : r.lives[w]? = some x → ∃ s, r.posts[x.seat]? = some s ∧
    x.generation ≤ s.generation ∧ (s.generation = x.generation → s.worker = some w)

namespace Matched

theorem unique (hr : r.Matched) (hx : r.lives[w]? = some x) (hy : r.lives[v]? = some y)
    (hs : r.posts[x.seat]? = some s) (hxg : s.generation = x.generation) (hseat : x.seat = y.seat)
    (hyg : s.generation = y.generation) : w = v := by
  obtain ⟨t, ht, -, hw⟩ := hr.known hx
  cases hs.symm.trans ht
  obtain ⟨t, ht, -, hv⟩ := hr.known hy
  rw [← hseat] at ht
  cases hs.symm.trans ht
  exact Option.some.inj ((hw hxg).symm.trans (hv hyg))

theorem cut (hr : r.Matched) (hs : r.posts[i]? = some s) (hy : (r.cut s.worker)[v]? = some y) :
    ∃ x, r.lives[v]? = some x ∧
      ((s.worker = some v ∧ x.seat = i ∧ s.generation = x.generation ∧ y = { x with connected := false }) ∨
        (¬ (i = x.seat ∧ s.generation = x.generation) ∧ y = x)) := by
  have hother {x} (hx : r.lives[v]? = some x) (hne : s.worker ≠ some v) :
      ¬ (i = x.seat ∧ s.generation = x.generation) := by
    rintro ⟨rfl, hg⟩
    obtain ⟨t, ht, -, hv⟩ := hr.known hx
    cases hs.symm.trans ht
    exact hne (hv hg)
  cases hw : s.worker with
  | none =>
    rw [hw] at hy
    exact ⟨y, hy, .inr ⟨hother hy (by rw [hw]; nofun), rfl⟩⟩
  | some w =>
    simp only [hw, Roll.cut, List.getElem?_modify] at hy
    obtain ⟨x, hx, rfl⟩ := Option.map_eq_some_iff.mp hy
    refine ⟨x, hx, ?_⟩
    by_cases hv : w = v
    · subst hv
      obtain ⟨z, hz, hseat, hg⟩ := hr.seated hs hw
      cases hx.symm.trans hz
      exact .inl ⟨rfl, hseat, hg.symm, by simp⟩
    · refine .inr ⟨hother hx ?_, by simp [hv]⟩
      rw [hw]
      exact fun h ↦ hv (Option.some.inj h)

end Matched

def state? (r : Roll) (x : Life) : Option WorkerState :=
  stateAt r.posts x.seat x.generation

/-- What a worker was before a step, and how it fared; or else it has just been started. -/
theorem Step.fares (h : r.Step o r') (hr : r.Matched) (hy : r'.lives[v]? = some y) : (∃ x, r.lives[v]? = some x ∧
        x.Fares (Override.at? o x.seat x.generation) (r.state? x) (r'.state? y) y) ∨
      (v = r.lives.length ∧ ∃ i s, r.posts[i]? = some s ∧ y = { seat := i, generation := s.generation + 1 } ∧
        r'.state? y = some .starting) := by
  -- a worker whose own data stay as they are
  have hstay (hy : r.lives[v]? = some y) (hstate : r'.state? y = r.state? y)
      (ho : Override.at? o y.seat y.generation = none) :
      ∃ x, r.lives[v]? = some x ∧ x.Fares (Override.at? o x.seat x.generation) (r.state? x) (r'.state? y) y := by
    refine ⟨y, hy, ?_⟩
    rw [hstate, ho]
    exact .stay _
  unfold state? at hstay ⊢
  cases h with
  | stay | begin h | skip hc hs hf | await hc hs now | ended hc h now | finish hc =>
    exact .inl (hstay hy rfl rfl)
  | @shift i s state hs h =>
    refine .inl ⟨y, hy, ?_⟩
    rw [stateAt_set hs]
    split
    · rename_i hown
      obtain ⟨rfl, hg⟩ := hown
      rw [stateAt_of hs hg]
      exact .shift h
    · exact .stay _
  | @live w x y' hx h =>
    obtain ⟨rfl, rfl⟩ | ⟨-, hy⟩ := getElem?_set_cases hx hy
    · refine .inl ⟨x, hx, ?_⟩
      rw [h.same.1, h.same.2]
      exact .move _ h
    · exact .inl (hstay hy rfl rfl)
  | @readOnline w x rest s state hx hn hs hg h =>
    obtain ⟨rfl, rfl⟩ | ⟨hv, hy⟩ := getElem?_set_cases hx hy
    · refine .inl ⟨x, hx, ?_⟩
      rw [stateAt_set hs, if_pos ⟨rfl, hg⟩, stateAt_of hs hg]
      exact .readOnline hn h
    · refine .inl (hstay hy ?_ rfl)
      rw [stateAt_set hs, if_neg]
      rintro ⟨hseat, hyg⟩
      exact hv (hr.unique hx hy hs hg hseat hyg).symm
  | @readExit w x rest s hx hm hn hs hg =>
    obtain ⟨rfl, rfl⟩ | ⟨hv, hy⟩ := getElem?_set_cases hx hy
    · refine .inl ⟨x, hx, ?_⟩
      rw [stateAt_set hs, if_pos ⟨rfl, hg⟩, stateAt_of hs hg]
      simp only [Override.at?, Option.bind_some, and_self, if_true]
      exact .readExit _ hm hn
    · have hother : ¬ (x.seat = y.seat ∧ x.generation = y.generation) :=
        fun ⟨hseat, hyg⟩ ↦ hv (hr.unique hx hy hs hg hseat (hg.trans hyg)).symm
      refine .inl (hstay hy ?_ (if_neg hother))
      rw [stateAt_set hs, if_neg]
      rintro ⟨hseat, hyg⟩
      exact hother ⟨hseat, hg.symm.trans hyg⟩
  | @turnAway w x hx hg =>
    obtain ⟨rfl, rfl⟩ | ⟨-, hy⟩ := getElem?_set_cases hx hy
    · refine .inl ⟨x, hx, ?_⟩
      have hnone : stateAt r.posts x.seat x.generation = none := by
        refine Option.eq_none_iff_forall_ne_some.mpr fun a ha ↦ ?_
        obtain ⟨s, hs, hsg, -⟩ := stateAt_eq_some.mp ha
        exact hg s hs hsg
      rw [hnone]
      exact .turnAway
    · exact .inl (hstay hy rfl rfl)
  | @seenOff w x hx hm hp =>
    obtain ⟨rfl, rfl⟩ | ⟨-, hy⟩ := getElem?_set_cases hx hy
    · exact .inl ⟨x, hx, .seenOff _ hm hp⟩
    · exact .inl (hstay hy rfl rfl)
  | @missed w x hx hm hn hp =>
    obtain ⟨rfl, rfl⟩ | ⟨hv, hy⟩ := getElem?_set_cases hx hy
    · refine .inl ⟨x, hx, ?_⟩
      have hstate : stateAt (r.posts.modify x.seat fun s ↦
          if s.generation = x.generation ∧ s.state.isFinal = false then { s with state := .errored } else s)
            x.seat x.generation =
          (stateAt r.posts x.seat x.generation).map fun a ↦ if a.isFinal then a else .errored := by
        rw [stateAt_modify, stateAt]
        cases r.posts[x.seat]? with
        | none => rfl
        | some s => by_cases hg : s.generation = x.generation <;> cases hf : s.state.isFinal <;> simp [hg, hf]
      rw [hstate]
      exact .missed _ hm hn hp
    · refine .inl (hstay hy ?_ rfl)
      rw [stateAt_modify]
      refine Option.bind_congr fun s hs ↦ ?_
      by_cases hyg : s.generation = y.generation
      · rw [if_pos hyg, if_pos hyg, if_neg]
        rintro ⟨hseat, hg, -⟩
        exact hv (hr.unique hx hy (hseat ▸ hs) hg hseat hyg).symm
      · rw [if_neg hyg, if_neg hyg]
  | @start i s hs h =>
    obtain hy | ⟨rfl, rfl⟩ := getElem?_concat_cases hy
    · obtain ⟨x, hx, ⟨hw, rfl, hg, rfl⟩ | ⟨hother, rfl⟩⟩ := hr.cut hs hy
      · refine .inl ⟨x, hx, ?_⟩
        have hnone : stateAt (r.start x.seat s).posts x.seat x.generation = none := by
          simp [stateAt, Roll.start, getElem?_set_of hs, hg]
        rw [stateAt_of hs hg, hnone]
        exact .replaced (h.imp_right fun h ↦ h v x hw hx)
      · refine .inl (hstay hx ?_ rfl)
        simp only [stateAt, Roll.start, getElem?_set_of hs]
        split
        · rename_i hi
          subst hi
          obtain ⟨t, ht, hle, -⟩ := hr.known hx
          cases hs.symm.trans ht
          have hg : s.generation ≠ y.generation := fun hg ↦ hother ⟨rfl, hg⟩
          have hg' : s.generation + 1 ≠ y.generation := by omega
          simp [hs, hg, hg']
        · rfl
    · refine .inr ⟨r.length_cut s.worker, i, s, hs, rfl, ?_⟩
      simp [stateAt, Roll.start, getElem?_set_of hs]
  | @ask next asked s w x hc hs hf hw hx =>
    obtain ⟨z, hz, rfl, hg⟩ := hr.seated hs hw
    cases hx.symm.trans hz
    obtain ⟨rfl, rfl⟩ | ⟨hv, hy⟩ := getElem?_set_cases hx hy
    · refine .inl ⟨x, hx, ?_⟩
      rw [stateAt_set hs, if_pos ⟨rfl, hg.symm⟩, stateAt_of hs hg.symm]
      exact .ask hf
    · refine .inl (hstay hy ?_ rfl)
      rw [stateAt_set hs, if_neg]
      rintro ⟨hseat, hyg⟩
      exact hv (hr.unique hx hy hs hg.symm hseat hyg).symm
  | @askVain next asked s hc hs hf h =>
    refine .inl ⟨y, hy, ?_⟩
    rw [stateAt_set hs]
    split
    · rename_i hown
      obtain ⟨rfl, hg⟩ := hown
      rw [stateAt_of hs hg]
      obtain ⟨t, ht, -, hv⟩ := hr.known hy
      cases hs.symm.trans ht
      exact .askVain hf (h v y (hv hg) hy)
    · exact .stay _
  | @grace since l rest hc now =>
    refine .inl ⟨y, hy, ?_⟩
    rw [stateAt_modify]
    by_cases hown : l.seat = y.seat ∧ l.generation = y.generation
    · have hstate : (r.posts[y.seat]?.bind fun s ↦ if s.generation = y.generation then
          some (if l.seat = y.seat ∧ s.generation = l.generation then .errored else s.state) else none) =
          (stateAt r.posts y.seat y.generation).map fun _ ↦ .errored := by
        rw [stateAt]
        cases r.posts[y.seat]? with
        | none => rfl
        | some s => by_cases hg : s.generation = y.generation <;> simp [hown, hg]
      rw [hstate, Override.at?, Option.bind_some, if_pos hown]
      exact .grace _
    · have hstate : (r.posts[y.seat]?.bind fun s ↦ if s.generation = y.generation then
          some (if l.seat = y.seat ∧ s.generation = l.generation then .errored else s.state) else none) =
          stateAt r.posts y.seat y.generation := by
        refine Option.bind_congr fun s hs ↦ ?_
        by_cases hg : s.generation = y.generation
        · rw [if_pos hg, if_pos hg, if_neg]
          exact fun h ↦ hown ⟨h.1, h.2.symm.trans hg⟩
        · rw [if_neg hg, if_neg hg]
      rw [hstate, Override.at?, Option.bind_some, if_neg hown]
      exact .stay _

theorem Step.seating (h : r.Step o r') :
    (r'.posts.map (fun s ↦ (s.worker, s.generation)) = r.posts.map (fun s ↦ (s.worker, s.generation)) ∧
        r'.lives.map (fun x ↦ (x.seat, x.generation)) = r.lives.map (fun x ↦ (x.seat, x.generation))) ∨
      ∃ i s, r.posts[i]? = some s ∧ r' = r.start i s := by
  have hcond (c : Prop) [Decidable c] (a : WorkerState) (s : Post) :
      ((if c then { s with state := a } else s).worker, (if c then { s with state := a } else s).generation) =
        (s.worker, s.generation) := by
    split <;> rfl
  cases h with
  | shift hs h | askVain hc hs hf h => exact .inl ⟨map_set_same hs rfl, rfl⟩
  | live hx h => exact .inl ⟨rfl, map_set_same hx (Prod.ext h.same.1 h.same.2)⟩
  | readOnline hx hn hs hg h | readExit hx hm hn hs hg | ask hc hs hf hw hx =>
    exact .inl ⟨map_set_same hs rfl, map_set_same hx rfl⟩
  | turnAway hx hg | seenOff hx hm hp => exact .inl ⟨rfl, map_set_same hx rfl⟩
  | missed hx hm hn hp => exact .inl ⟨map_modify_same (fun s ↦ hcond _ _ s) _, map_set_same hx rfl⟩
  | start hs h => exact .inr ⟨_, _, hs, rfl⟩
  | grace hc now => exact .inl ⟨map_modify_same (fun s ↦ hcond _ _ s) _, rfl⟩
  | _ => exact .inl ⟨rfl, rfl⟩

theorem lives_start (r : Roll) (i : Nat) (s : Post) (hx : r.lives[w]? = some x) :
    ∃ y, (r.start i s).lives[w]? = some y ∧ y.seat = x.seat ∧ y.generation = x.generation := by
  have hlt : w < (r.cut s.worker).length := (r.length_cut s.worker).symm ▸ (lt_of_getElem? hx)
  simp only [Roll.start, List.getElem?_append_left hlt]
  cases s.worker with
  | none => exact ⟨x, hx, rfl, rfl⟩
  | some v =>
    simp only [Roll.cut, List.getElem?_modify, hx]
    by_cases hv : v = w
    · exact ⟨{ x with connected := false }, by simp [hv], rfl, rfl⟩
    · exact ⟨x, by simp [hv], rfl, rfl⟩

theorem Matched.start (hr : r.Matched) (hs : r.posts[i]? = some s) : (r.start i s).Matched := by
  refine ⟨fun {j t w} ht hw ↦ ?_, fun {w y} hy ↦ ?_⟩
  · simp only [Roll.start, getElem?_set_of hs] at ht
    split at ht
    · rename_i hj
      cases ht
      cases hw
      refine ⟨{ seat := i, generation := s.generation + 1 }, ?_, hj, rfl⟩
      exact r.length_cut s.worker ▸ List.getElem?_concat_length
    · obtain ⟨x, hx, hseat, hg⟩ := hr.seated ht hw
      obtain ⟨y, hy, hseat', hg'⟩ := lives_start r i s hx
      exact ⟨y, hy, hseat'.trans hseat, hg'.trans hg⟩
  · obtain hy | ⟨rfl, rfl⟩ := getElem?_concat_cases hy
    · obtain ⟨x, hx, hcut⟩ := hr.cut hs hy
      obtain ⟨hseat, hg⟩ : y.seat = x.seat ∧ y.generation = x.generation := by
        obtain ⟨-, -, -, rfl⟩ | ⟨-, rfl⟩ := hcut <;> exact ⟨rfl, rfl⟩
      obtain ⟨t, ht, hle, hown⟩ := hr.known hx
      simp only [Roll.start, getElem?_set_of hs, hseat, hg]
      by_cases hi : i = x.seat
      · -- whoever was in the seat is of an earlier generation
        subst hi
        cases hs.symm.trans ht
        refine ⟨_, if_pos rfl, Nat.le_succ_of_le hle, fun h ↦ ?_⟩
        replace h : s.generation + 1 = x.generation := h
        omega
      · exact ⟨t, (if_neg hi).trans ht, hle, hown⟩
    · refine ⟨⟨some r.lives.length, s.generation + 1, .starting⟩, ?_, Nat.le_refl _, fun _ ↦ ?_⟩
      · simp [Roll.start, getElem?_set_of hs]
      · rw [r.length_cut]

theorem Matched.step (hr : r.Matched) (h : r.Step o r') : r'.Matched := by
  obtain ⟨hposts, hlives⟩ | ⟨i, s, hs, rfl⟩ := h.seating
  · refine ⟨fun {i s' w} hs' hw ↦ ?_, fun {w x'} hx' ↦ ?_⟩
    · obtain ⟨s, hs, heq⟩ := getElem?_of_map hposts hs'
      obtain ⟨hworker, hgeneration⟩ := Prod.mk.inj heq
      obtain ⟨x, hx, hseat, hg⟩ := hr.seated hs (hworker.trans hw)
      obtain ⟨x', hx', heq⟩ := getElem?_of_map hlives.symm hx
      obtain ⟨hseat', hg'⟩ := Prod.mk.inj heq
      exact ⟨x', hx', hseat'.trans hseat, hg'.trans (hg.trans hgeneration)⟩
    · obtain ⟨x, hx, heq⟩ := getElem?_of_map hlives hx'
      obtain ⟨hseat, hg⟩ := Prod.mk.inj heq
      obtain ⟨s, hs, hle, hw⟩ := hr.known hx
      obtain ⟨s', hs', heq⟩ := getElem?_of_map hposts.symm hs
      obtain ⟨hworker, hgeneration⟩ := Prod.mk.inj heq
      rw [hseat] at hs'
      refine ⟨s', hs', ?_, fun hown ↦ hworker.trans (hw ?_)⟩
      · rwa [hgeneration, ← hg]
      · rw [← hgeneration, hown, hg]
  · exact hr.start hs

end Roll

namespace Life

/-- How often a worker has said that it leaves, and somebody has heard it or will hear it. -/
def exits (x : Life) : Nat :=
  x.notes.count .exited + if x.monitor = .watching true then 1 else 0

def MayExit (x : Life) : Prop :=
  x.monitor = .watching false ∧ (.exited ∈ x.notes ∨ (x.phase.works ∧ x.asked))

/-- What holds of a worker at any time, given the state of its seat if it has one, and whether its time
of grace has run out. -/
structure Sound (x : Life) (state : Option WorkerState) (overdue : Prop) : Prop where
  once : x.exits ≤ 1
  working : x.phase.works → x.exits = 0
  connected : state ≠ none → x.connected
  through : state ≠ none → x.monitor = .through → x.phase.speaks = false
  exited : state = some .exited → x.monitor ≠ .watching false ∧ x.phase.works = false
  mayExit : state ≠ none → x.MayExit → state = some .closing ∨ overdue

theorem Sound.mono {x : Life} {state : Option WorkerState} {overdue overdue' : Prop} (hx : x.Sound state overdue)
    (h : overdue → overdue') : x.Sound state overdue' :=
  ⟨hx.once, hx.working, hx.connected, hx.through, hx.exited, fun ha hm ↦ (hx.mayExit ha hm).imp_right h⟩

theorem sound_new (seat generation : Nat) (overdue : Prop) : Sound { seat, generation } (some .starting) overdue :=
  ⟨Nat.zero_le 1, fun _ ↦ rfl, fun _ ↦ rfl, nofun, nofun, fun _ h ↦ by simp [MayExit] at h⟩

variable {x y : Life} {o a b : Option WorkerState} {overdue overdue' : Prop}

theorem MayExit.mono (h : y.MayExit) (hm : y.monitor = x.monitor)
    (hn : .exited ∈ y.notes → .exited ∈ x.notes ∨ (x.phase.works ∧ x.asked))
    (hp : y.phase.works → y.asked → x.phase.works ∧ x.asked) : x.MayExit := by
  obtain ⟨hwatching, hexit | ⟨hworks, hasked⟩⟩ := h
  · exact ⟨hm ▸ hwatching, hn hexit⟩
  · exact ⟨hm ▸ hwatching, .inr (hp hworks hasked)⟩

theorem works_of_silent {phase : Phase} (h : phase.speaks = false) : phase.works = false := by
  cases phase <;> first | rfl | cases h

theorem Moves.mayExit (h : x.Moves y) (hc : x.connected) (hy : y.MayExit) : x.MayExit := by
  cases h with
  | report h => exact hy.mono rfl (fun hn ↦ .inl (by simpa using hn)) fun _ hasked ↦ ⟨by rw [h]; rfl, hasked⟩
  | crash h => exact hy.mono rfl .inl nofun
  | quit h hask asked =>
    refine hy.mono rfl (fun _ ↦ .inr ⟨by rw [h]; rfl, hask.resolve_right fun hcut ↦ ?_⟩) nofun
    rw [hc] at hcut
    cases hcut
  | fade h hp asked =>
    refine hy.mono rfl .inl fun hw ↦ ?_
    rw [works_of_silent hp] at hw
    cases hw

theorem Moves.sound (h : x.Moves y) (hx : x.Sound a overdue) : y.Sound a overdue := by
  have hmay (ha : a ≠ none) (hy : y.MayExit) := hx.mayExit ha (h.mayExit (hx.connected ha) hy)
  have hspeaks (hp : x.phase.speaks) (ha : a ≠ none) (hm : x.monitor = .through) : False := by
    rw [hx.through ha hm] at hp
    cases hp
  cases h with
  | report h =>
    have hworks : x.phase.works := by rw [h]; rfl
    have hexits : exits { x with phase := .serving, notes := x.notes ++ [.online] } = x.exits := by
      simp [exits]
    refine ⟨hexits ▸ hx.once, fun _ ↦ hexits ▸ hx.working hworks, hx.connected,
      fun ha hm ↦ (hspeaks (by rw [h]; rfl) ha hm).elim, fun ha ↦ ?_, hmay⟩
    rw [(hx.exited ha).2] at hworks
    cases hworks
  | crash h =>
    exact ⟨hx.once, nofun, hx.connected, fun ha hm ↦ (hspeaks (by rw [h]; rfl) ha hm).elim,
      fun ha ↦ ⟨(hx.exited ha).1, rfl⟩, hmay⟩
  | quit h hask asked =>
    have hworks : x.phase.works := by rw [h]; rfl
    have hexits : exits { x with phase := .leaving, notes := x.notes ++ [.exited], asked } = x.exits + 1 := by
      simp only [exits, count_append, count_singleton_self]
      omega
    rw [hx.working hworks] at hexits
    exact ⟨Nat.le_of_eq hexits, nofun, hx.connected, fun ha hm ↦ (hspeaks (by rw [h]; rfl) ha hm).elim,
      fun ha ↦ ⟨(hx.exited ha).1, rfl⟩, hmay⟩
  | fade h hp asked =>
    refine ⟨hx.once, fun hw ↦ ?_, hx.connected, fun _ _ ↦ hp, fun ha ↦ ⟨(hx.exited ha).1, works_of_silent hp⟩, hmay⟩
    rw [works_of_silent hp] at hw
    cases hw

theorem Sound.exits_through (hx : x.Sound a overdue) :
    exits { x with monitor := .through } ≤ 1 ∧ (x.phase.works → exits { x with monitor := .through } = 0) := by
  have hle : exits { x with monitor := .through } ≤ x.exits := by simp [exits]
  refine ⟨Nat.le_trans hle hx.once, fun hw ↦ ?_⟩
  have := hx.working hw
  omega

theorem Fares.sound (h : x.Fares o a b y) (hx : x.Sound a overdue) (hmono : overdue → overdue')
    (ho : o = some .errored → overdue') : y.Sound b overdue' := by
  replace hx := hx.mono hmono
  cases h with
  | stay a => exact hx
  | @shift a b h =>
    refine ⟨hx.once, hx.working, fun _ ↦ hx.connected nofun, fun _ ↦ hx.through nofun, fun hb ↦ ?_, fun _ hm ↦ ?_⟩
    · cases hb
      exact hx.exited (congrArg some h.eq_of_exited)
    · obtain ha | hover := hx.mayExit nofun hm
      · cases ha
        exact .inl (congrArg some h.eq_of_closing)
      · exact .inr hover
  | move a h => exact h.sound hx
  | @readOnline a b rest hn h =>
    have hexits : exits { x with notes := rest } = x.exits := by simp [exits, hn]
    refine ⟨hexits ▸ hx.once, hexits ▸ hx.working, fun _ ↦ hx.connected nofun, fun _ ↦ hx.through nofun,
      fun hb ↦ ?_, fun _ hm ↦ ?_⟩
    · cases hb
      exact hx.exited (congrArg some h.eq_of_exited)
    · have hm : x.MayExit := hm.mono rfl (fun hmem ↦ .inl (by simp [hn, hmem])) fun hw ha ↦ ⟨hw, ha⟩
      obtain ha | hover := hx.mayExit nofun hm
      · cases ha
        exact .inl (congrArg some h.eq_of_closing)
      · exact .inr hover
  | @readExit rest a hm hn =>
    have hexits : x.exits = rest.count .exited + 1 + if x.monitor = .watching true then 1 else 0 := by
      simp [exits, hn]
    have honce := hx.once
    refine ⟨?_, fun hw ↦ ?_, fun _ ↦ hx.connected nofun, nofun, fun _ ↦ ⟨nofun, ?_⟩, fun _ h ↦ ?_⟩
    · simp only [exits, if_true]
      omega
    · have := hx.working hw
      omega
    · refine Bool.eq_false_iff.mpr fun hw ↦ ?_
      have := hx.working hw
      omega
    · cases h.1
  | turnAway =>
    exact ⟨hx.exits_through.1, hx.exits_through.2, nofun, nofun, nofun, nofun⟩
  | seenOff a hm hp =>
    refine ⟨hx.exits_through.1, hx.exits_through.2, hx.connected, fun _ _ ↦ hp,
      fun ha ↦ ⟨nofun, (hx.exited ha).2⟩, fun _ h ↦ ?_⟩
    cases h.1
  | missed a hm hn hp =>
    have ha {a : Option WorkerState} (h : a.map (fun a ↦ if a.isFinal then a else .errored) ≠ none) : a ≠ none :=
      fun hnone ↦ h (by rw [hnone]; rfl)
    refine ⟨hx.exits_through.1, hx.exits_through.2, fun h ↦ hx.connected (ha h), fun _ _ ↦ hp, fun h ↦ ?_,
      fun _ h ↦ ?_⟩
    · obtain ⟨b, rfl, hb⟩ := Option.map_eq_some_iff.mp h
      split at hb
      · exact ((hx.exited (congrArg some hb)).1 hm).elim
      · cases hb
    · cases h.1
  | replaced h => exact ⟨hx.once, hx.working, nofun, nofun, nofun, nofun⟩
  | ask hf | askVain hf hl =>
    exact ⟨hx.once, hx.working, fun _ ↦ hx.connected nofun, fun _ ↦ hx.through nofun, nofun, fun _ _ ↦ .inl rfl⟩
  | grace a =>
    have ha (h : a.map (fun _ ↦ WorkerState.errored) ≠ none) : a ≠ none :=
      fun hnone ↦ h (by rw [hnone]; rfl)
    refine ⟨hx.once, hx.working, fun h ↦ hx.connected (ha h), fun h ↦ hx.through (ha h), fun h ↦ ?_,
      fun _ _ ↦ .inr (ho rfl)⟩
    cases a <;> cases h

theorem Fares.mayExit {a : WorkerState} (h : x.Fares o (some a) b y) (ha : a.isFinal) (hx : x.connected)
    (hy : y.MayExit) : x.MayExit := by
  cases h with
  | move a h => exact h.mayExit hx hy
  | readOnline hn h => exact hy.mono rfl (fun hmem ↦ .inl (by simp [hn, hmem])) fun hw hasked ↦ ⟨hw, hasked⟩
  | readExit a hm hn | seenOff a hm hp | missed a hm hn hp => cases hy.1
  | ask hf =>
    rw [ha] at hf
    cases hf
  | _ => exact hy

theorem Fares.unwatched (h : x.Fares o a b y) (hx : x.monitor ≠ .watching false) : y.monitor ≠ .watching false := by
  cases h with
  | move a h => cases h <;> exact hx
  | readExit | turnAway | seenOff | missed => nofun
  | _ => exact hx

theorem Fares.mayExit_of_exited (h : x.Fares (some .exited) a b y) (hx : x.Sound a overdue) : x.MayExit := by
  cases h with
  | @readExit rest a hm hn =>
    refine ⟨?_, .inl (hn ▸ mem_cons_self)⟩
    cases hmonitor : x.monitor with
    | through => exact (hm hmonitor).elim
    | watching exited =>
      cases exited with
      | false => rfl
      | true =>
        have honce := hx.once
        simp only [exits, hn, hmonitor, count_cons_self, if_true] at honce
        omega

end Life

def Closing.leavers : Closing → List Leaver
  | .asking _ asked => asked
  | .awaiting _ left => left
  | _ => []

/-- How far a pool has been closed agrees with whose time of grace has run out. -/
def Closing.Fits (overdue : Nat → Nat → Prop) : Closing → Prop
  | .notYet => ∀ i g, ¬ overdue i g
  | .asking next asked => (∀ i g, ¬ overdue i g) ∧ asked.Pairwise (·.seat < ·.seat) ∧ ∀ l ∈ asked, l.seat < next
  | .awaiting _ left => left.Pairwise (·.seat < ·.seat) ∧ ∀ l ∈ left, ¬ overdue l.seat l.generation
  | .done => True

theorem Closing.Fits.mono {overdue overdue' : Nat → Nat → Prop} {c : Closing} (h : c.Fits overdue)
    (hle : ∀ i g, overdue' i g → overdue i g) : c.Fits overdue' := by
  cases c with
  | notYet => exact fun i g ho ↦ h i g (hle i g ho)
  | asking next asked => exact ⟨fun i g ho ↦ h.1 i g (hle i g ho), h.2⟩
  | awaiting since left => exact ⟨h.1, fun l hl ho ↦ h.2 l hl (hle _ _ ho)⟩
  | done => trivial

namespace Roll

variable {r r' : Roll} {w v : WorkerId} {x y : Life} {i : Nat} {s : Post} {o : Option Override}
  {overdue overdue' : Nat → Nat → Prop}

structure Sound (r : Roll) (overdue : Nat → Nat → Prop) : Prop where
  matched : r.Matched
  life {w : WorkerId} {x : Life} : r.lives[w]? = some x → x.Sound (r.state? x) (overdue x.seat x.generation)
  early : r.closed = false → r.closing = .notYet
  fits : r.closing.Fits overdue
  leaver {l : Leaver} : l ∈ r.closing.leavers →
    ∃ x, r.lives[l.worker]? = some x ∧ x.seat = l.seat ∧ x.generation = l.generation

theorem Sound.congr (hr : r.Sound overdue) (h : ∀ i g, overdue i g ↔ overdue' i g) : r.Sound overdue' := by
  obtain rfl : overdue = overdue' := funext₂ fun i g ↦ propext (h i g)
  exact hr

def overdueAfter (overdue : Nat → Nat → Prop) (o : Option Override) (i g : Nat) : Prop :=
  overdue i g ∨ o = some ⟨i, g, .errored⟩

theorem overdue_of_none {g : Nat} (h : overdueAfter overdue none i g) : overdue i g :=
  h.resolve_right nofun

theorem Step.lives (h : r.Step o r') (hx : r.lives[w]? = some x) :
    ∃ y, r'.lives[w]? = some y ∧ y.seat = x.seat ∧ y.generation = x.generation := by
  obtain ⟨-, hlives⟩ | ⟨i, s, hs, rfl⟩ := h.seating
  · obtain ⟨y, hy, heq⟩ := getElem?_of_map hlives.symm hx
    exact ⟨y, hy, (Prod.mk.inj heq).1, (Prod.mk.inj heq).2⟩
  · exact lives_start r i s hx

theorem Step.fits (h : r.Step o r') (hr : r.Sound overdue) : r'.closing.Fits (overdueAfter overdue o) := by
  have hf := hr.fits
  have hnone {c : Closing} (hc : c.Fits overdue) : c.Fits (overdueAfter overdue none) :=
    hc.mono fun _ _ ↦ overdue_of_none
  have hlater {next : Nat} {asked : List Leaver} (hc : r.closing = .asking next asked) (more : List Leaver)
      (hmore : more.Pairwise (·.seat < ·.seat)) (hnext : ∀ l ∈ more, l.seat = next) :
      (Closing.asking (next + 1) (asked ++ more)).Fits (overdueAfter overdue none) := by
    rw [hc] at hf
    obtain ⟨hno, hsorted, hlt⟩ := hf
    refine hnone ⟨hno, pairwise_append.mpr ⟨hsorted, hmore, fun l hl m hm ↦ ?_⟩, fun l hl ↦ ?_⟩
    · rw [hnext m hm]
      exact hlt l hl
    · obtain hl | hl := mem_append.mp hl
      · exact Nat.lt_succ_of_lt (hlt l hl)
      · exact hnext l hl ▸ Nat.lt_succ_self next
  cases h with
  | readExit => exact hf.mono fun i g ho ↦ ho.resolve_right nofun
  | begin h =>
    rw [hr.early h] at hf
    exact hnone ⟨hf, .nil, nofun⟩
  | ask hc hs hf' hw hx => exact hlater hc _ (pairwise_singleton _ _) (by simp)
  | askVain hc hs hf' h | skip hc hs hf' => simpa using hlater hc [] .nil nofun
  | await hc hs now =>
    rw [hc] at hf
    exact hnone ⟨hf.2.1, fun l _ ↦ hf.1 _ _⟩
  | ended hc h now =>
    rw [hc] at hf
    exact hnone ⟨(pairwise_cons.mp hf.1).2, fun m hm ↦ hf.2 m (.tail _ hm)⟩
  | @grace since l rest hc now =>
    rw [hc] at hf
    obtain ⟨hhead, hrest⟩ := pairwise_cons.mp hf.1
    refine ⟨hrest, fun m hm ho ↦ ?_⟩
    obtain ho | ho := ho
    · exact hf.2 m (.tail _ hm) ho
    · have hseat : l.seat = m.seat := congrArg Override.seat (Option.some.inj ho)
      exact Nat.lt_irrefl _ (hseat ▸ hhead m hm)
  | finish hc => trivial
  | _ => exact hnone hf

theorem Step.leaver (h : r.Step o r') (hr : r.Sound overdue) {l : Leaver} (hl : l ∈ r'.closing.leavers) :
    ∃ x, r.lives[l.worker]? = some x ∧ x.seat = l.seat ∧ x.generation = l.generation := by
  have hold (c : Closing) (hc : r.closing = c) (hl : l ∈ c.leavers) :
      ∃ x, r.lives[l.worker]? = some x ∧ x.seat = l.seat ∧ x.generation = l.generation :=
    hr.leaver (hc ▸ hl)
  cases h with
  | begin h | finish hc => cases hl
  | @ask next asked s w x hc hs hf hw hx =>
    obtain hl | hl := mem_append.mp hl
    · exact hold _ hc hl
    · obtain rfl := mem_singleton.mp hl
      exact hr.matched.seated hs hw
  | askVain hc hs hf h | skip hc hs hf | await hc hs now => exact hold _ hc hl
  | ended hc h now | grace hc now => exact hold _ hc (.tail _ hl)
  | _ => exact hr.leaver hl

theorem Override.eq_of_at? {g : Nat} {a : WorkerState} (h : Override.at? o i g = some a) : o = some ⟨i, g, a⟩ := by
  obtain ⟨u, rfl, hu⟩ := Option.bind_eq_some_iff.mp h
  split at hu
  · rename_i hown
    obtain ⟨rfl, rfl⟩ := hown
    cases hu
    rfl
  · cases hu

theorem Sound.step (hr : r.Sound overdue) (h : r.Step o r') : r'.Sound (overdueAfter overdue o) := by
  refine ⟨hr.matched.step h, fun {w y} hy ↦ ?_, fun hc ↦ ?_, h.fits hr, fun hl ↦ ?_⟩
  · obtain ⟨x, hx, hfares⟩ | ⟨-, i, s, hs, rfl, hstate⟩ := h.fares hr.matched hy
    · rw [hfares.same.1, hfares.same.2]
      exact hfares.sound (hr.life hx) .inl fun ho ↦ .inr (Override.eq_of_at? ho)
    · rw [hstate]
      exact Life.sound_new _ _ _
  · cases h with
    | begin => cases hc
    | ask h | askVain h | skip h | await h | ended h | grace h | finish h =>
      rw [hr.early hc] at h
      cases h
    | _ => exact hr.early hc
  · obtain ⟨x, hx, hseat, hg⟩ := h.leaver hr hl
    obtain ⟨y, hy, hseat', hg'⟩ := h.lives hx
    exact ⟨y, hy, hseat'.trans hseat, hg'.trans hg⟩

theorem Step.given {g : Nat} {a : WorkerState} (h : r.Step (some ⟨i, g, a⟩) r') : a = .exited ∨ a = .errored := by
  cases h with
  | readExit => exact .inl rfl
  | grace => exact .inr rfl

theorem Step.final (h : r.Step o r') (hs : r.posts[i]? = some s) (hf : s.state.isFinal) :
    ∃ t, r'.posts[i]? = some t ∧ (t.generation = s.generation + 1 ∨
      (t.generation = s.generation ∧ t.state = (Override.at? o i s.generation).getD s.state)) := by
  have hsame (hs' : r'.posts[i]? = some s) (ho : Override.at? o i s.generation = none) : ∃ t, r'.posts[i]? = some t ∧
      (t.generation = s.generation + 1 ∨
        (t.generation = s.generation ∧ t.state = (Override.at? o i s.generation).getD s.state)) :=
    ⟨s, hs', .inr ⟨rfl, by rw [ho]; rfl⟩⟩
  -- a seat whose state is set to what it is, or another seat
  have hset {j : Nat} {t : Post} {a : WorkerState} (ht : r.posts[j]? = some t) (ha : t.state.isFinal → a = t.state) :
      (r.posts.set j { t with state := a })[i]? = some s := by
    rw [getElem?_set_of ht]
    split
    · rename_i hj
      subst hj
      cases hs.symm.trans ht
      rw [ha hf]
    · exact hs
  cases h with
  | shift ht h | readOnline hx hn ht hg h => exact hsame (hset ht h.eq_of_isFinal) rfl
  | @readExit w x rest t hx hm hn ht hg =>
    by_cases hi : x.seat = i
    · subst hi
      cases hs.symm.trans ht
      refine ⟨{ s with state := .exited }, ?_, .inr ⟨rfl, ?_⟩⟩
      · exact (getElem?_set_of ht _).trans (if_pos rfl)
      · simp [Override.at?, hg]
    · refine hsame ?_ (by simp [Override.at?, hi])
      exact (getElem?_set_of ht _).trans ((if_neg hi).trans hs)
  | missed hx hm hn hp =>
    refine hsame ?_ rfl
    simp [List.getElem?_modify, hs, hf]
  | @start j t ht h =>
    by_cases hj : j = i
    · subst hj
      cases hs.symm.trans ht
      exact ⟨_, (getElem?_set_of ht _).trans (if_pos rfl), .inl rfl⟩
    · exact hsame ((getElem?_set_of ht _).trans ((if_neg hj).trans hs)) rfl
  | ask hc ht hf' hw hx | askVain hc ht hf' h =>
    refine hsame (hset ht fun h ↦ ?_) rfl
    rw [h] at hf'
    cases hf'
  | @grace since l rest hc now =>
    by_cases hown : l.seat = i ∧ l.generation = s.generation
    · obtain ⟨rfl, hg⟩ := hown
      refine ⟨{ s with state := .errored }, by simp [hs, hg], .inr ⟨rfl, ?_⟩⟩
      simp [Override.at?, hg]
    · refine hsame ?_ (by simp [Override.at?, hown])
      rw [List.getElem?_modify, hs]
      by_cases hseat : l.seat = i
      · have hg : s.generation ≠ l.generation := fun hg ↦ hown ⟨hseat, hg.symm⟩
        simp [hseat, hg]
      · simp [hseat]
  | _ => exact hsame hs rfl

end Roll

theorem Pool.sound_start {σ : Type} (setup : PoolSetup σ) (count : Nat) (disk : Disk) :
    (start setup count disk).roll.Sound fun _ _ ↦ False := by
  have hfold (k : Nat) (hk : k ≤ max count 1) : ((List.range k).foldl (startWorker setup)
      ({ disk, seats := List.replicate (max count 1) {} } : Pool σ)).roll.Sound fun _ _ ↦ False := by
    induction k with
    | zero =>
      refine ⟨⟨fun {i s w} hs hw ↦ ?_, nofun⟩, nofun, fun _ ↦ rfl, fun _ _ h ↦ h, nofun⟩
      obtain ⟨t, ht, rfl⟩ := posts_eq_some.mp hs
      rw [eq_of_mem_replicate (mem_of_getElem? ht)] at hw
      cases hw
    | succ k ih =>
      have hle := Nat.le_of_succ_le hk
      have hsound := ih hle
      have hfilled := filled_range setup count disk hle
      rw [range_succ, foldl_append]
      generalize (List.range k).foldl (startWorker setup) _ = p at hsound hfilled ⊢
      have hlt : k < p.seats.length := by
        rwa [hfilled.seats]
      have hs := List.getElem?_eq_getElem hlt
      -- the seat has had nobody yet who could hear anything
      have hdeaf : p.roll.IsDeaf p.seats[k].post := by
        intro w x hw hx
        cases (hfilled.free hs (Nat.le_refl k)).symm.trans hw
      have hstep := hsound.step (.start (posts_of hs) (.inr hdeaf))
      rw [← roll_startWorker setup hs] at hstep
      exact hstep.congr fun _ _ ↦ ⟨Roll.overdue_of_none, .inl⟩
  exact hfold _ (Nat.le_refl _)

end AnalysisServer
