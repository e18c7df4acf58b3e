import AnalysisServer.Cache.Callers
import AnalysisServer.Proofs.Cache.Slots
import Mathlib.Algebra.GroupWithZero.Nat

/-!
Callers that share a cache never wait for each other in a circle: whoever waits for a cell waits for a caller that
fills it, and that one can go on.
-/

namespace AnalysisServer.Cache

open List

variable {K V ε : Type} {x : Caller K V ε}

def Call.key : Call K V ε → K
  | .build key _ _ | .look key _ => key

def Progress.slot? : Progress V ε → Option SlotId
  | holding i | filling i | failing i _ => some i
  | _ => none

def Progress.left : Progress V ε → Nat
  | waiting => longestCall
  | holding _ => 3
  | filling _ | peeking _ => 2
  | filled _ | served _ | failing _ _ | looked _ => 1
  | done _ => 0

def Call.Admits : Call K V ε → Progress V ε → Prop
  | _, .waiting => True
  | .build _ _ _, .peeking _ | .build _ _ _, .looked _ | .build _ _ _, .done (.found _) => False
  | .build _ _ _, _ => True
  | .look _ _, .peeking _ | .look _ _, .looked _ | .look _ _, .done (.found _) => True
  | .look _ _, _ => False

theorem Call.admits_waiting (call : Call K V ε) : call.Admits .waiting := by
  cases call <;> trivial

namespace Crowd

variable {w : Crowd K V ε} {n : Nat} {calls : List (Call K V ε)}

def start (calls : List (Call K V ε)) : Crowd K V ε where
  cache := {}
  callers := calls.map ({ call := · })

theorem callers_start : (start calls).callers[n]? = some x ↔ calls[n]? = some x.call ∧ x.progress = .waiting := by
  simp only [start, List.getElem?_map, Option.map_eq_some_iff]
  constructor
  · rintro ⟨call, hcall, rfl⟩
    exact ⟨hcall, rfl⟩
  · rintro ⟨hcall, hwaiting⟩
    obtain ⟨call, progress⟩ := x
    cases hwaiting
    exact ⟨call, hcall, rfl⟩

theorem call_of_made (h : w.callers.map (·.call) = calls)
    (hx : w.callers[n]? = some x) : calls[n]? = some x.call := by
  rw [← h, List.getElem?_map, hx]
  rfl

def left (w : Crowd K V ε) : Nat :=
  (w.callers.map (·.progress.left)).sum

theorem left_set {xs : List (Caller K V ε)} {y : Caller K V ε} (hx : xs[n]? = some x)
    (h : y.progress.left < x.progress.left) :
    ((xs.set n y).map (·.progress.left)).sum < (xs.map (·.progress.left)).sum := by
  induction xs generalizing n with
  | nil => cases hx
  | cons z xs ih =>
    cases n with
    | zero =>
      cases hx
      simpa using h
    | succ n =>
      have := ih (n := n) hx
      simpa using this

theorem left_le (w : Crowd K V ε) : w.left ≤ longestCall * w.callers.length := by
  unfold left
  induction w.callers with
  | nil => simp
  | cons x xs ih =>
    have hx : x.progress.left ≤ longestCall := by
      cases x.progress <;> simp [Progress.left, longestCall]
    simp only [map_cons, sum_cons, length_cons, Nat.mul_succ]
    omega

theorem outcome?_eq_none_iff (x : Caller K V ε) : x.outcome? = none ↔ 0 < x.progress.left := by
  unfold Caller.outcome?
  cases x.progress <;> simp [Progress.left, longestCall]

theorem left_pos_iff : 0 < w.left ↔ ∃ (n : Nat) (x : Caller K V ε), w.callers[n]? = some x ∧ x.outcome? = none := by
  simp only [left, List.sum_pos_iff_exists_pos_nat, mem_map, outcome?_eq_none_iff]
  constructor
  · rintro ⟨_, ⟨x, hx, rfl⟩, hpos⟩
    obtain ⟨n, hn⟩ := List.getElem?_of_mem hx
    exact ⟨n, x, hn, hpos⟩
  · rintro ⟨n, x, hn, hpos⟩
    exact ⟨_, ⟨x, mem_of_getElem? hn, rfl⟩, hpos⟩

end Crowd

variable [BEq K]

inductive Call.Step (c : Cache K V) :
    Call K V ε → Progress V ε → Cache K V → Progress V ε → Prop
  | acquire {k fp yields} : Step c (.build k fp yields) .waiting (c.acquire k fp).2 (.holding (c.acquire k fp).1)
  | start {k fp stored yields i} (h : c.slot? i = some ⟨stored, .empty⟩) :
      Step c (.build k fp yields) (.holding i) (c.start i) (.filling i)
  | serve {k fp stored yields i e} (h : c.slot? i = some ⟨stored, .full e⟩) :
      Step c (.build k fp yields) (.holding i) c (.served e.value)
  | finish {k fp i v} : Step c (.build k fp (.ok v)) (.filling i) (c.finish i v) (.filled v)
  | giveUp {k fp i e} : Step c (.build k fp (.error e)) (.filling i) (c.giveUp i) (.failing i e)
  | countMiss {k fp yields v} : Step c (.build k fp yields) (.filled v) c.countMiss (.done (.value v))
  | countHit {k fp yields v} : Step c (.build k fp yields) (.served v) c.countHit (.done (.value v))
  | discard {k fp yields i e} : Step c (.build k fp yields) (.failing i e) (c.discard k i) (.done (.failed e))
  | find {k fp} : Step c (.look k fp) .waiting c (.peeking (c.slotOf? k))
  | read {k fp i} : Step c (.look k fp) (.peeking i) c (.looked (i.bind fun i ↦ c.freshValue? i fp))
  | count {k fp v} : Step c (.look k fp) (.looked v) (c.count v.isSome) (.done (.found v))

theorem Caller.step_cases {c c' : Cache K V} {x' : Caller K V ε} (h : x.step c = some (c', x')) :
    x' = { x with progress := x'.progress } ∧ x.call.Step c x.progress c' x'.progress := by
  obtain ⟨call, progress⟩ := x
  simp only [Caller.step] at h
  split at h
  · cases h
    exact ⟨rfl, .acquire⟩
  · rename_i i
    cases hs : c.slot? i with
    | none =>
      rw [hs] at h
      cases h
    | some s =>
      obtain ⟨stored, cell⟩ := s
      rw [hs] at h
      cases cell with
      | empty =>
        cases h
        exact ⟨rfl, .start hs⟩
      | running => cases h
      | full e =>
        cases h
        exact ⟨rfl, .serve hs⟩
  · cases h
    exact ⟨rfl, .finish⟩
  · cases h
    exact ⟨rfl, .giveUp⟩
  · cases h
    exact ⟨rfl, .countMiss⟩
  · cases h
    exact ⟨rfl, .countHit⟩
  · cases h
    exact ⟨rfl, .discard⟩
  · cases h
    exact ⟨rfl, .find⟩
  · cases h
    exact ⟨rfl, .read⟩
  · cases h
    exact ⟨rfl, .count⟩
  · cases h

theorem Caller.isSome_step {c : Cache K V} (hadmits : x.call.Admits x.progress) (hopen : x.outcome? = none)
    (hcell : ∀ i, x.progress = .holding i → ∃ s, c.slot? i = some s ∧ ∀ stored, s ≠ ⟨stored, .running⟩) :
    (x.step c).isSome := by
  obtain ⟨call, progress⟩ := x
  cases progress with
  | holding i =>
    cases call with
    | build k fp yields =>
      obtain ⟨⟨stored, cell⟩, hs, hne⟩ := hcell i rfl
      cases cell with
      | empty | full => simp [Caller.step, hs]
      | running => exact absurd rfl (hne stored)
    | look => cases hadmits
  | filling i =>
    cases call with
    | build k fp yields => cases yields <;> rfl
    | look => cases hadmits
  | done o => cases hopen
  | waiting => cases call <;> rfl
  | _ => cases call <;> first | rfl | cases hadmits

namespace Call.Step

variable {c c' : Cache K V} {call : Call K V ε} {p p' : Progress V ε} {i : SlotId}

section

variable (h : call.Step c p c' p')

include h

theorem left : p'.left < p.left := by
  cases h <;> simp [Progress.left, longestCall]

theorem admits : call.Admits p' := by
  cases h <;> trivial

theorem slot?_eq (hi : i < c.slots.length) (hne : p.slot? ≠ some i) : c'.slot? i = c.slot? i := by
  have hset {j} (hj : j ≠ i) (cell : Cell V) : (c.setCell j cell).slot? i = c.slot? i := by
    rw [slot?_setCell, if_neg hj]
  cases h with
  | @acquire k fp =>
    obtain ⟨j, s, he, -⟩ | ⟨he, -⟩ := acquire_cases c k fp
    · rw [he]
    · rw [he, slot?_link, if_neg (Nat.ne_of_lt hi)]
  | start | finish | giveUp => exact hset (fun hj ↦ hne (congrArg some hj)) _
  | @discard k _ _ j =>
    unfold Cache.discard
    split <;> rfl
  | countMiss | countHit | serve | find | read => rfl
  | count => exact slot?_count c _ i

theorem slotOf?_eq [LawfulBEq K] {k : K} (hkey : call.key ≠ k) : c'.slotOf? k = c.slotOf? k := by
  have hne : (k == call.key) = false := by simpa using Ne.symm hkey
  cases h with
  | @acquire k' fp =>
    obtain ⟨j, s, he, -⟩ | ⟨he, -⟩ := acquire_cases c k' fp
    · rw [he]
    · rw [he, slotOf?_link, show (k == k') = false from hne]
      rfl
  | @discard k' =>
    unfold Cache.discard
    split
    · rw [slotOf?_unlink, show (k == k') = false from hne]
      rfl
    · rfl
  | count => exact slotOf?_count c _ k
  | _ => rfl

theorem slot?_cases {s : Slot V} (hi : c'.slot? i = some s) :
    c.slot? i = some s ∧ p ≠ .filling i ∨ s.cell = .empty ∨ s.cell = .running ∧ p' = .filling i ∨
      ∃ e, s.cell = .full e := by
  have hset (j : SlotId) (cell : Cell V) (hj : (c.setCell j cell).slot? i = some s) :
      c.slot? i = some s ∧ j ≠ i ∨ s.cell = cell ∧ j = i := by
    rw [slot?_setCell] at hj
    split at hj
    · rename_i hji
      obtain ⟨t, -, rfl⟩ := Option.map_eq_some_iff.mp hj
      exact .inr ⟨rfl, hji⟩
    · rename_i hji
      exact .inl ⟨hj, hji⟩
  cases h with
  | @acquire k fp =>
    obtain ⟨j, t, he, -⟩ | ⟨he, -⟩ := acquire_cases c k fp
    · rw [he] at hi
      exact .inl ⟨hi, nofun⟩
    · rw [he, slot?_link] at hi
      split at hi
      · cases hi
        exact .inr (.inl rfl)
      · exact .inl ⟨hi, nofun⟩
  | @start _ _ _ _ j =>
    obtain ⟨hi, -⟩ | ⟨hs, rfl⟩ := hset j .running hi
    · exact .inl ⟨hi, nofun⟩
    · exact .inr (.inr (.inl ⟨hs, rfl⟩))
  | @finish _ _ j v =>
    obtain ⟨hi, hne⟩ | ⟨hs, -⟩ := hset j _ hi
    · exact .inl ⟨hi, fun h ↦ hne (Progress.filling.inj h)⟩
    · exact .inr (.inr (.inr ⟨_, hs⟩))
  | @giveUp _ _ j =>
    obtain ⟨hi, hne⟩ | ⟨hs, -⟩ := hset j .empty hi
    · exact .inl ⟨hi, fun h ↦ hne (Progress.filling.inj h)⟩
    · exact .inr (.inl hs)
  | discard =>
    unfold Cache.discard at hi
    split at hi <;> exact .inl ⟨hi, nofun⟩
  | count => exact .inl ⟨slot?_count c _ i ▸ hi, nofun⟩
  | countMiss | countHit | serve | find | read => exact .inl ⟨hi, nofun⟩

theorem length_le : c.slots.length ≤ c'.slots.length := by
  cases h with
  | @acquire k fp =>
    obtain ⟨j, s, he, -⟩ | ⟨he, -⟩ := acquire_cases c k fp
    · simp [he]
    · simp [he, slots_link]
  | start | finish | giveUp => simp [Cache.start, Cache.finish, Cache.giveUp]
  | @discard k _ _ j =>
    unfold Cache.discard
    split <;> exact Nat.le_refl _
  | countMiss | countHit | serve | find | read => exact Nat.le_refl _
  | count => simp

theorem held_cases (hi : p'.slot? = some i) :
    p.slot? = some i ∨ c.slotOf? call.key = some i ∨ i = c.slots.length ∧ i < c'.slots.length := by
  cases h with
  | @acquire k fp =>
    cases hi
    obtain ⟨j, s, he, hj, -⟩ | ⟨he, -⟩ := acquire_cases c k fp
    · rw [he]
      exact .inr (.inl hj)
    · exact .inr (.inr (by simp [he, slots_link]))
  | start | giveUp => exact .inl hi
  | _ => cases hi

theorem sound [LawfulBEq K] (hs : c.Sound) : c'.Sound := by
  cases h with
  | @acquire k fp => exact hs.acquire k fp
  | start => exact hs.start _
  | finish | giveUp => exact hs.setCell _ _
  | @discard k _ _ i =>
    unfold Cache.discard
    split
    · exact hs.unlink k
    · exact hs
  | countMiss | countHit => exact hs.of_eq (fun _ ↦ rfl) rfl
  | serve | find | read => exact hs
  | count => exact hs.count _

end

end Call.Step

namespace Crowd

variable {w w' : Crowd K V ε} {n : Nat}

theorem step_cases (h : w.step n = some w') : ∃ x p, w.callers[n]? = some x ∧
    w'.callers = w.callers.set n { x with progress := p } ∧ x.call.Step w.cache x.progress w'.cache p := by
  unfold Crowd.step at h
  split at h
  · cases h
  · rename_i x hx
    obtain ⟨⟨c, x'⟩, hr, rfl⟩ := Option.map_eq_some_iff.mp h
    obtain ⟨he, hstep⟩ := Caller.step_cases hr
    exact ⟨x, x'.progress, hx, congrArg _ he, hstep⟩

theorem run_append (w : Crowd K V ε) (order later : List Nat) : w.run (order ++ later) = (w.run order).run later :=
  foldl_append

theorem run_induction {P : Crowd K V ε → Prop} (hstep : ∀ {w w' n}, w.step n = some w' → P w → P w')
    (h : P w) (order : List Nat) : P (w.run order) := by
  induction order generalizing w with
  | nil => exact h
  | cons n order ih =>
    refine ih (w := (w.step n).getD w) ?_
    cases hn : w.step n with
    | none => exact h
    | some w' => exact hstep hn h

theorem left_step (h : w.step n = some w') : w'.left < w.left := by
  obtain ⟨x, p, hx, hcallers, hstep⟩ := step_cases h
  unfold left
  rw [hcallers]
  exact left_set hx hstep.left

theorem left_run_le (w : Crowd K V ε) (order : List Nat) : (w.run order).left ≤ w.left :=
  run_induction (P := fun u ↦ u.left ≤ w.left)
    (fun hstep h ↦ Nat.le_trans (Nat.le_of_lt (left_step hstep)) h) (Nat.le_refl _) order

theorem left_run_lt {order : List Nat} (hn : n ∈ order) (h : (w.step n).isSome) : (w.run order).left < w.left := by
  induction order with
  | nil => cases hn
  | cons m order ih =>
    cases hm : w.step m with
    | some w' =>
      have hle := left_run_le w' order
      simp only [run, foldl_cons, hm, Option.getD_some] at hle ⊢
      exact Nat.lt_of_le_of_lt hle (left_step hm)
    | none =>
      have hne : n ≠ m := by
        rintro rfl
        rw [hm] at h
        cases h
      have := ih ((mem_cons.mp hn).resolve_left hne)
      simpa only [run, foldl_cons, hm, Option.getD_none] using this

theorem length_step (h : w.step n = some w') : w'.callers.length = w.callers.length := by
  obtain ⟨x, p, -, hcallers, -⟩ := step_cases h
  rw [hcallers, length_set]

theorem length_run (w : Crowd K V ε) (order : List Nat) : (w.run order).callers.length = w.callers.length :=
  run_induction (P := fun u ↦ u.callers.length = w.callers.length)
    (fun hstep h ↦ (length_step hstep).trans h) rfl order

theorem calls_step (h : w.step n = some w') : w'.callers.map (·.call) = w.callers.map (·.call) := by
  obtain ⟨x, p, hx, hcallers, -⟩ := step_cases h
  refine ext_getElem? fun m ↦ ?_
  rw [hcallers, List.getElem?_map, List.getElem?_map]
  by_cases hm : n = m
  · subst hm
    rw [getElem?_set_same hx, hx]
    rfl
  · rw [List.getElem?_set_ne hm]

structure Attended (w : Crowd K V ε) : Prop where
  sound : w.cache.Sound
  admits {n : Nat} {x : Caller K V ε} : w.callers[n]? = some x → x.call.Admits x.progress
  held {n : Nat} {x : Caller K V ε} {i : SlotId} : w.callers[n]? = some x →
    x.progress.slot? = some i → i < w.cache.slots.length
  running {i : SlotId} {stored : Option String} : w.cache.slot? i = some ⟨stored, .running⟩ →
    ∃ (n : Nat) (x : Caller K V ε), w.callers[n]? = some x ∧ x.progress = .filling i

theorem Attended.start (calls : List (Call K V ε)) : (start calls).Attended where
  sound := .empty
  admits h := by
    rw [(callers_start.mp h).2]
    exact Call.admits_waiting _
  held h hi := by
    rw [(callers_start.mp h).2] at hi
    cases hi
  running h := by cases h

theorem Attended.step [LawfulBEq K] (hw : w.Attended) (h : w.step n = some w') : w'.Attended := by
  obtain ⟨x, p, hx, hcallers, hstep⟩ := step_cases h
  refine ⟨hstep.sound hw.sound, fun {m y} hy ↦ ?_, fun {m y i} hy hi ↦ ?_, fun {i stored} hi ↦ ?_⟩
  · rw [hcallers] at hy
    obtain ⟨-, rfl⟩ | ⟨-, hy⟩ := getElem?_set_cases hx hy
    · exact hstep.admits
    · exact hw.admits hy
  · rw [hcallers] at hy
    obtain ⟨-, rfl⟩ | ⟨-, hy⟩ := getElem?_set_cases hx hy
    · obtain hi | hi | hi := hstep.held_cases hi
      · exact Nat.lt_of_lt_of_le (hw.held hx hi) hstep.length_le
      · exact Nat.lt_of_lt_of_le (hw.sound.inRange hi) hstep.length_le
      · exact hi.2
    · exact Nat.lt_of_lt_of_le (hw.held hy hi) hstep.length_le
  · rw [hcallers]
    have hlt := lt_of_getElem? hx
    obtain ⟨hi, hp⟩ | he | ⟨-, hp⟩ | ⟨_, he⟩ := hstep.slot?_cases hi
    · obtain ⟨m, y, hy, hfilling⟩ := hw.running hi
      refine ⟨m, y, ?_, hfilling⟩
      rw [List.getElem?_set_ne ?_]
      · exact hy
      · rintro rfl
        cases hx.symm.trans hy
        exact hp hfilling
    · cases he
    · exact ⟨n, _, List.getElem?_set_self hlt, hp⟩
    · cases he

theorem Attended.run [LawfulBEq K] (hw : w.Attended) (order : List Nat) : (w.run order).Attended :=
  run_induction (fun h hw ↦ hw.step h) hw order

theorem Attended.exists_step (hw : w.Attended) (hx : w.callers[n]? = some x)
    (hopen : x.outcome? = none) : ∃ m, m < w.callers.length ∧ (w.step m).isSome := by
  have hcan {m : Nat} {y : Caller K V ε} (hy : w.callers[m]? = some y) (hopen : y.outcome? = none)
      (hcell : ∀ i, y.progress = .holding i → ∃ s, w.cache.slot? i = some s ∧ ∀ stored, s ≠ ⟨stored, .running⟩) :
      ∃ m, m < w.callers.length ∧ (w.step m).isSome := by
    refine ⟨m, (lt_of_getElem? hy), ?_⟩
    simp only [Crowd.step, hy, Option.isSome_map, Caller.isSome_step (hw.admits hy) hopen hcell]
  -- The only one who has to wait is somebody who holds a running cell, and whoever fills it can step.
  by_cases hwaits : ∃ i stored, x.progress = .holding i ∧ w.cache.slot? i = some ⟨stored, .running⟩
  · obtain ⟨i, stored, -, hrunning⟩ := hwaits
    obtain ⟨m, y, hy, hfilling⟩ := hw.running hrunning
    refine hcan hy (by simp only [Caller.outcome?, hfilling]) fun j hj ↦ ?_
    cases hfilling.symm.trans hj
  · refine hcan hx hopen fun i hi ↦ ?_
    have hlt := hw.held hx (i := i) (by rw [hi]; rfl)
    refine ⟨_, List.getElem?_eq_getElem hlt, fun stored hs ↦ hwaits ⟨i, stored, hi, ?_⟩⟩
    rw [← hs]
    exact List.getElem?_eq_getElem hlt

theorem Attended.done_of_rounds [LawfulBEq K] (hw : w.Attended) {rounds : List (List Nat)}
    (hrounds : ∀ r ∈ rounds, ∀ n, n < w.callers.length → n ∈ r) (hleft : w.left ≤ rounds.length) :
    ∀ x ∈ (w.run rounds.flatten).callers, x.outcome?.isSome := by
  induction rounds generalizing w with
  | nil =>
    intro x hx
    obtain ⟨n, hn⟩ := List.getElem?_of_mem hx
    refine Option.isSome_iff_ne_none.mpr fun hopen ↦ ?_
    exact Nat.not_lt.mpr hleft (left_pos_iff.mpr ⟨n, x, hn, hopen⟩)
  | cons r rounds ih =>
    rw [flatten_cons, run_append]
    refine ih (hw.run r) (fun r' hr' n hn ↦ ?_) ?_
    · rw [length_run] at hn
      exact hrounds r' (.tail _ hr') n hn
    · -- A round in which somebody can step takes a step off what is left.
      by_cases hpos : 0 < w.left
      · obtain ⟨n, x, hx, hopen⟩ := left_pos_iff.mp hpos
        obtain ⟨m, hm, hstep⟩ := hw.exists_step hx hopen
        have hlt := left_run_lt (hrounds r (.head _) m hm) hstep
        exact Nat.le_of_lt_succ (Nat.lt_of_lt_of_le hlt hleft)
      · have hle := left_run_le w r
        omega

end Crowd

end AnalysisServer.Cache
